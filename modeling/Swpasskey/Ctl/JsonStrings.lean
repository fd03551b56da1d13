import Swpasskey.Lib.Utf8
import Swpasskey.Ctl.JsonText
import Swpasskey.Ctl.Server

/-!
# String literals of a request

A literal is a list of pieces: characters as they are, the short escapes, `\uXXXX`, and pairs of
these for what is beyond the basic plane. The parser does not know `\b` and `\f`, and it encodes the
two halves of a pair one by one, three bytes each. Everything else it decodes to the UTF-8 of the
text that the literal denotes (`decodes_iff`).
-/

namespace Swpasskey

open Utf8 Json Server

/-! ### Pieces -/

/-- A hexadecimal digit in either case. -/
structure HexDigit where
  val : Fin 16
  upper : Bool

def HexDigit.byte (d : HexDigit) : UInt8 :=
  (ascii (if d.upper then "0123456789ABCDEF" else "0123456789abcdef")).getD d.val 0

/-- The four digits behind `\u`. -/
structure HexUnit where
  d₁ : HexDigit
  d₂ : HexDigit
  d₃ : HexDigit
  d₄ : HexDigit

namespace HexUnit

def val (u : HexUnit) : ℕ := ((u.d₁.val * 16 + u.d₂.val) * 16 + u.d₃.val) * 16 + u.d₄.val

def digits (u : HexUnit) : Bytes := [u.d₁.byte, u.d₂.byte, u.d₃.byte, u.d₄.byte]

/-- The escape. -/
def bytes (u : HexUnit) : Bytes := 0x5C :: 0x75 :: u.digits

end HexUnit

/-- The escapes of one letter. -/
inductive ShortEscape
  | quote | backslash | slash | b | f | n | r | t
  deriving DecidableEq

namespace ShortEscape

/-- What stands behind the backslash. -/
def byte : ShortEscape → UInt8
  | quote => 0x22
  | backslash => 0x5C
  | slash => 0x2F
  | b => 0x62
  | f => 0x66
  | n => 0x6E
  | r => 0x72
  | t => 0x74

def char : ShortEscape → Char
  | quote => '"'
  | backslash => '\\'
  | slash => '/'
  | b => '\x08'
  | f => '\x0C'
  | n => '\n'
  | r => '\r'
  | t => '\t'

end ShortEscape

/-- How one character of a string can be written. -/
inductive Piece
  | raw (c : Char) (ge : 0x20 ≤ c.toNat) (ne_quote : c ≠ '"') (ne_backslash : c ≠ '\\')
  | short (e : ShortEscape)
  | unit (c : Char) (u : HexUnit) (eq : c.toNat = u.val)
  | pair (c : Char) (high low : HexUnit) (isHigh : 0xD800 ≤ high.val ∧ high.val < 0xDC00)
      (isLow : 0xDC00 ≤ low.val ∧ low.val < 0xE000)
      (eq : c.toNat = 0x10000 + (high.val - 0xD800) * 0x400 + (low.val - 0xDC00))

namespace Piece

def char : Piece → Char
  | raw c _ _ _ => c
  | short e => e.char
  | unit c _ _ => c
  | pair c _ _ _ _ _ => c

def bytes : Piece → Bytes
  | raw c _ _ _ => String.utf8EncodeChar c
  | short e => [0x5C, e.byte]
  | unit _ u _ => u.bytes
  | pair _ high low _ _ _ => high.bytes ++ low.bytes

/-- What the parser encodes: the two halves of a pair by themselves. -/
def units : Piece → List ℕ
  | raw c _ _ _ => [c.toNat]
  | short e => [e.char.toNat]
  | unit c _ _ => [c.toNat]
  | pair _ high low _ _ _ => [high.val, low.val]

/-- `\b` and `\f`. -/
def IsUnknown (p : Piece) : Prop := p = short .b ∨ p = short .f

def IsPair : Piece → Prop
  | raw .. => False
  | short _ => False
  | unit .. => False
  | pair .. => True

end Piece

/-- What is between the quotes. -/
abbrev Literal : Type := List Piece

namespace Literal

/-- The text that the literal denotes. -/
def chars (l : Literal) : List Char := l.map Piece.char

def bytes (l : Literal) : Bytes := l.flatMap Piece.bytes

def units (l : Literal) : List ℕ := l.flatMap Piece.units

/-- None of its escapes is unknown to the parser. -/
def Known (l : Literal) : Prop := ∀ p ∈ l, ¬ p.IsUnknown

/-- It has no pair. -/
def Unpaired (l : Literal) : Prop := ∀ p ∈ l, ¬ p.IsPair

end Literal

/-! ### What the parser makes of a piece -/

section Pieces

variable {v : ℕ} {u : HexUnit} {p : Piece} {l : Literal}

theorem hexQuad_digits (u : HexUnit) : hexQuad u.digits = some u.val := by
  have hdigit : ∀ d : HexDigit, hexDigit d.byte = some d.val := by
    rintro ⟨d, b⟩
    revert d b
    decide +kernel
  have hor : ∀ (a : ℕ) (d : Fin 16), a <<< 4 ||| d = a * 16 + d := by
    intro a d
    rw [← Nat.shiftLeft_add_eq_or_of_lt d.isLt, Nat.shiftLeft_eq]
  simp [hexQuad, HexUnit.digits, hdigit, hor, HexUnit.val]

theorem HexUnit.val_lt (u : HexUnit) : u.val < 0x10000 := by
  rw [HexUnit.val]
  omega

/-- The shifts and masks of the parser are UTF-8, below `0x10000`. -/
theorem encodeUnit_eq (hv : v < 0x10000) : encodeUnit v = encode v := by
  have hshift6 : v >>> 6 = v / 64 := Nat.shiftRight_eq_div_pow v 6
  have hshift12 : v >>> 12 = v / 4096 := Nat.shiftRight_eq_div_pow v 12
  have hmask : ∀ n, n &&& 0x3F = n % 64 := fun n => Nat.and_two_pow_sub_one_eq_mod n 6
  have h2 : ∀ n < 64, 0xC0 ||| n = n + 0xC0 := fun n hn => by
    rw [Nat.add_comm]
    exact (Nat.shiftLeft_add_eq_or_of_lt (i := 6) hn 3).symm
  have h3 : ∀ n < 16, 0xE0 ||| n = n + 0xE0 := fun n hn => by
    rw [Nat.add_comm]
    exact (Nat.shiftLeft_add_eq_or_of_lt (i := 4) hn 14).symm
  have hmore : ∀ n < 64, 0x80 ||| n = n + 0x80 := fun n hn => by
    rw [Nat.add_comm]
    exact (Nat.shiftLeft_add_eq_or_of_lt (i := 6) hn 2).symm
  rw [encodeUnit, encode]
  simp only [hshift6, hshift12, hmask]
  split_ifs with h₁ h₂
  · rfl
  · rw [h2 _ (by omega), hmore _ (by omega)]
  · rw [h3 _ (by omega), hmore _ (by omega), hmore _ (by omega)]

theorem reads_unit (u : HexUnit) : Reads u.bytes (encode u.val) := by
  rw [← encodeUnit_eq u.val_lt]
  exact reads_hex (hexQuad_digits u)

/-- The bytes of a character that may stand as it is are not special. -/
theorem reads_raw {c : Char} (hq : c ≠ '"') (hb : c ≠ '\\') :
    Reads (encode c.toNat) (encode c.toNat) := by
  have hbyte : ∀ b ∈ encode c.toNat, b ≠ 0x22 ∧ b ≠ 0x5C := by
    intro b hmem
    rcases lt_or_ge c.toNat 0x80 with hlt | hge
    · rw [encode, if_pos hlt, List.mem_singleton] at hmem
      have hval : b.toNat = c.toNat := by
        rw [hmem]
        exact UInt8.toNat_ofNat_of_lt (hlt.trans (by decide))
      constructor
      · rintro rfl
        exact hq (Char.toNat_inj.mp hval.symm)
      · rintro rfl
        exact hb (Char.toNat_inj.mp hval.symm)
    · have hle := le_of_mem_encode (toNat_lt c) hge hmem
      constructor
      · rintro rfl
        exact absurd hle (by decide)
      · rintro rfl
        exact absurd hle (by decide)
  have hreads := Reads.flatMap (f := fun b => [b]) (g := fun b => [b])
    fun b hmem => reads_byte (hbyte b hmem).1 (hbyte b hmem).2
  rwa [List.flatMap_singleton'] at hreads

theorem ShortEscape.reads {e : ShortEscape} (hb : e ≠ .b) (hf : e ≠ .f) :
    Reads [0x5C, e.byte] (encode e.char.toNat) := by
  have he : e.byte ≠ 0x75 ∧ unescape e.byte = some (UInt8.ofNat e.char.toNat) ∧
      encode e.char.toNat = [UInt8.ofNat e.char.toNat] := by
    cases e <;> first | exact absurd rfl hb | exact absurd rfl hf | decide
  rw [he.2.2]
  exact reads_unescape he.1 he.2.1

theorem ShortEscape.fails {e : ShortEscape} (h : e = .b ∨ e = .f) : Fails [0x5C, e.byte] := by
  have he : e.byte ≠ 0x75 ∧ unescape e.byte = none := by
    rcases h with rfl | rfl <;> decide
  exact fails_unescape he.1 he.2

theorem Piece.reads (h : ¬ p.IsUnknown) : Reads p.bytes (p.units.flatMap encode) := by
  cases p with
  | raw c _ hq hb =>
    rw [bytes, units, utf8EncodeChar_eq, List.flatMap_singleton]
    exact reads_raw hq hb
  | short e =>
    rw [bytes, units, List.flatMap_singleton]
    exact ShortEscape.reads (fun he => h (.inl (congrArg short he)))
      fun he => h (.inr (congrArg short he))
  | unit c u hu =>
    have hunits : (unit c u hu).units = [u.val] := congrArg (fun n => [n]) hu
    rw [hunits, List.flatMap_singleton]
    exact reads_unit u
  | pair c high low _ _ _ =>
    rw [units, List.flatMap_cons, List.flatMap_singleton]
    exact (reads_unit high).append (reads_unit low)

theorem Piece.fails (h : p.IsUnknown) : Fails p.bytes := by
  rcases h with rfl | rfl
  · exact ShortEscape.fails (.inl rfl)
  · exact ShortEscape.fails (.inr rfl)

namespace Literal

/-- A literal of known escapes is read. -/
theorem reads (h : l.Known) : Reads l.bytes (l.units.flatMap encode) := by
  have hreads := Reads.flatMap (l := l) fun p hp => Piece.reads (h p hp)
  rwa [← List.flatMap_assoc] at hreads

/-- The parser stops at an escape that it does not know. -/
theorem fails (h : ¬ l.Known) : Fails l.bytes := by
  induction l with
  | nil => exact absurd (fun p hp => absurd hp List.not_mem_nil) h
  | cons p l ih =>
    rw [bytes, List.flatMap_cons]
    by_cases hp : p.IsUnknown
    · exact (Piece.fails hp).append _
    · refine (Piece.reads hp).fails (ih fun hl => h ?_)
      exact List.forall_mem_cons.mpr ⟨hp, hl⟩

theorem units_of_unpaired (h : l.Unpaired) : l.units = l.chars.map Char.toNat := by
  induction l with
  | nil => rfl
  | cons p l ih =>
    obtain ⟨hp, hl⟩ := List.forall_mem_cons.mp h
    have hunits : p.units = [p.char.toNat] := by
      cases p with
      | pair => exact absurd trivial hp
      | _ => rfl
    rw [units, List.flatMap_cons, hunits, chars, List.map_cons, List.map_cons]
    exact congrArg _ (ih hl)

/-- The half of a pair is not a character. -/
theorem units_ne_of_pair (h : ¬ l.Unpaired) (cs : List Char) : l.units ≠ cs.map Char.toNat := by
  intro heq
  rw [Unpaired] at h
  push Not at h
  obtain ⟨p, hp, hpair⟩ := h
  cases p with
  | pair c high low isHigh _ _ =>
    have hmem : high.val ∈ l.units := List.mem_flatMap.mpr ⟨_, hp, List.mem_cons_self⟩
    rw [heq] at hmem
    obtain ⟨c', -, hc'⟩ := List.mem_map.mp hmem
    have hvalid := c'.valid
    change c'.toNat < 0xD800 ∨ 0xDFFF < c'.toNat ∧ c'.toNat < 0x110000 at hvalid
    omega
  | _ => exact hpair

theorem units_lt {v : ℕ} (h : v ∈ l.units) : v < 0x110000 := by
  obtain ⟨p, -, hv⟩ := List.mem_flatMap.mp h
  cases p with
  | pair c high low _ _ _ =>
    have hhigh := high.val_lt
    have hlow := low.val_lt
    simp only [Piece.units, List.mem_cons, List.not_mem_nil, or_false] at hv
    omega
  | _ => exact (List.mem_singleton.mp hv) ▸ toNat_lt _

/-- What is read is the UTF-8 of a text, if of any, of the one denoted, and exactly when there is no
pair. -/
theorem flatMap_units_eq_text_iff {cs : List Char} :
    l.units.flatMap encode = text cs ↔ l.Unpaired ∧ l.chars = cs := by
  rw [text_eq_flatMap]
  have hlt : ∀ v ∈ cs.map Char.toNat, v < 0x110000 := by
    intro v hv
    obtain ⟨c, -, rfl⟩ := List.mem_map.mp hv
    exact toNat_lt c
  constructor
  · intro h
    have heq := flatMap_encode_injective (fun v hv => units_lt hv) hlt h
    have hunpaired : l.Unpaired := by
      by_contra hno
      exact units_ne_of_pair hno cs heq
    rw [units_of_unpaired hunpaired] at heq
    exact ⟨hunpaired, List.map_injective_iff.mpr (fun a b hab => Char.toNat_inj.mp hab) heq⟩
  · rintro ⟨hunpaired, rfl⟩
    rw [units_of_unpaired hunpaired]

end Literal

end Pieces

/-! ### Requests -/

/-- Whitespace. -/
abbrev Blank : Type := {l : Bytes // ∀ c ∈ l, isWs c = true}

/-- A value: a string, or a number or a name. -/
inductive SpelledValue
  | str (l : Literal)
  | token (t : Bytes) (isToken : IsToken t)

structure SpelledMember where
  beforeName : Blank := ⟨[], by simp⟩
  name : Literal
  afterName : Blank := ⟨[], by simp⟩
  beforeValue : Blank := ⟨[], by simp⟩
  value : SpelledValue
  afterValue : Blank := ⟨[], by simp⟩

namespace SpelledMember

def flat (m : SpelledMember) : FlatMember where
  beforeKey := m.beforeName.1
  key := m.name.bytes
  afterKey := m.afterName.1
  beforeValue := m.beforeValue.1
  value := match m.value with
    | .str l => .str l.bytes
    | .token t _ => .token t
  afterValue := m.afterValue.1

/-- The parser knows every escape in it. -/
def Known (m : SpelledMember) : Prop := m.name.Known ∧ ∀ l, m.value = .str l → l.Known

/-- What the parser reads. -/
def readValue (m : SpelledMember) : Bytes :=
  match m.value with
  | .str l => l.units.flatMap encode
  | .token t _ => t ++ m.afterValue.1.takeWhile (!endsToken ·)

def readName (m : SpelledMember) : Bytes := m.name.units.flatMap encode

end SpelledMember

/-- An object of strings, numbers and names, no two of its members with one name. What is behind its
closing brace is not looked at. -/
structure Request where
  before : Blank := ⟨[], by simp⟩
  members : List SpelledMember
  names_nodup : (members.map fun m => m.name.chars).Nodup
  rest : Bytes := []

def Request.line (r : Request) : Bytes :=
  r.before.1 ++ 0x7B :: (FlatMember.join (r.members.map SpelledMember.flat) ++ 0x7D :: r.rest)

/-- The line is accepted with the UTF-8 of the value under the UTF-8 of the name; and if the name is
that of the PIN in a request to set it, then the value is the PIN that is set. -/
structure Decodes (line : Bytes) (name value : List Char) : Prop where
  ok : (parseFlatJson line).ok = true
  field : (parseFlatJson line).fields.lookup (text name) = some (text value)
  setPin : name = ['p', 'i', 'n'] → (parseFlatJson line).get (ascii "op") = ascii "set-pin" →
    ∀ D deps, handleRequest D deps line = handleSetPin D deps (text value)

section Requests

variable {m : SpelledMember} {ms : List SpelledMember} {r : Request} {v : Literal}

theorem SpelledMember.wellFormed (m : SpelledMember) : m.flat.WellFormed where
  beforeKey := m.beforeName.2
  afterKey := m.afterName.2
  beforeValue := m.beforeValue.2
  afterValue := m.afterValue.2
  token t ht := by
    rw [flat] at ht
    rcases hval : m.value with l | ⟨t', ht'⟩ <;> rw [hval] at ht <;> cases ht
    exact ht'

theorem SpelledMember.reads (h : m.Known) : m.flat.Reads (m.readName, m.readValue) := by
  refine ⟨Literal.reads h.1, ?_⟩
  rw [FlatMember.ReadsValue, readValue, flat]
  rcases hval : m.value with l | ⟨t, ht⟩
  · exact Literal.reads (h.2 l hval)
  · rfl

theorem SpelledMember.fails (h : ¬ m.Known) : m.flat.Fails := by
  by_cases hname : m.name.Known
  · rw [Known, not_and] at h
    have hval := h hname
    push Not at hval
    obtain ⟨l, hl, hunknown⟩ := hval
    refine .inr ⟨⟨_, Literal.reads hname⟩, l.bytes, ?_, Literal.fails hunknown⟩
    rw [flat, hl]
  · exact .inl (Literal.fails hname)

theorem wellFormed_of_mem {f : FlatMember} (h : f ∈ ms.map SpelledMember.flat) : f.WellFormed := by
  obtain ⟨m, -, rfl⟩ := List.mem_map.mp h
  exact m.wellFormed

theorem forall₂_reads (h : ∀ m ∈ ms, m.Known) : List.Forall₂ FlatMember.Reads
    (ms.map SpelledMember.flat) (ms.map fun m => (m.readName, m.readValue)) := by
  rw [List.forall₂_map_left_iff, List.forall₂_map_right_iff, List.forall₂_same]
  exact fun m hm => SpelledMember.reads (h m hm)

/-- The first of the members that is not known. -/
theorem exists_first_unknown (h : ¬ ∀ m ∈ ms, m.Known) : ∃ pre m post, ms = pre ++ m :: post ∧
    (∀ a ∈ pre, a.Known) ∧ ¬ m.Known := by
  induction ms with
  | nil => exact absurd (fun m hm => absurd hm List.not_mem_nil) h
  | cons m ms ih =>
    by_cases hm : m.Known
    · have hms : ¬ ∀ m ∈ ms, m.Known := fun hms => h (List.forall_mem_cons.mpr ⟨hm, hms⟩)
      obtain ⟨pre, m', post, rfl, hpre, hm'⟩ := ih hms
      exact ⟨m :: pre, m', post, rfl, List.forall_mem_cons.mpr ⟨hm, hpre⟩, hm'⟩
    · exact ⟨[], m, ms, rfl, fun a ha => absurd ha List.not_mem_nil, hm⟩

theorem parseFlatJson_line (hne : r.members ≠ []) : parseFlatJson r.line =
    parseMembers [] (FlatMember.join (r.members.map SpelledMember.flat) ++ 0x7D :: r.rest) :=
  parseFlatJson_object r.before.2 (fun _ => wellFormed_of_mem)
    (fun h => hne (List.map_eq_nil_iff.mp h)) _

theorem parseFlatJson_of_known (hne : r.members ≠ []) (h : ∀ m ∈ r.members, m.Known) :
    parseFlatJson r.line = {
      fields := setFields [] (r.members.map fun m => (m.readName, m.readValue))
      ok := true } := by
  rw [parseFlatJson_line hne]
  exact parseMembers_of_reads (fun _ => wellFormed_of_mem) (forall₂_reads h)
    (fun h => hne (List.map_eq_nil_iff.mp h)) [] r.rest

theorem parseFlatJson_of_unknown (h : ¬ ∀ m ∈ r.members, m.Known) :
    (parseFlatJson r.line).ok = false := by
  obtain ⟨pre, m, post, hsplit, hpre, hm⟩ := exists_first_unknown h
  rw [parseFlatJson_line (by rw [hsplit]; simp), hsplit, List.map_append, List.map_cons]
  refine parseMembers_of_fails (fun a ha => ?_) (forall₂_reads hpre) (SpelledMember.fails hm) [] _
  rw [← List.map_cons, ← List.map_append] at ha
  exact wellFormed_of_mem ha

/-- No member with another name is read under this one, and the member itself only if its own name
is written without pairs. -/
theorem lookup_setFields_iff (hm : m ∈ r.members) (x : Bytes) :
    (setFields [] (r.members.map fun m => (m.readName, m.readValue))).lookup (text m.name.chars) =
      some x ↔ m.name.Unpaired ∧ m.readValue = x := by
  obtain ⟨pre, post, hsplit⟩ := List.append_of_mem hm
  have hnodup := r.names_nodup
  rw [hsplit, List.map_append, List.map_cons] at hnodup
  obtain ⟨hnotMem, -⟩ := List.nodup_cons.mp (List.nodup_middle.mp hnodup)
  rw [List.mem_append, not_or] at hnotMem
  have hother : ∀ ms : List SpelledMember, m.name.chars ∉ ms.map (fun m => m.name.chars) →
      text m.name.chars ∉ (ms.map fun m => (m.readName, m.readValue)).map Prod.fst := by
    intro ms hms hmem
    rw [List.map_map] at hmem
    obtain ⟨a, ha, hname⟩ := List.mem_map.mp hmem
    have hchars := (Literal.flatMap_units_eq_text_iff.mp hname).2
    exact hms (List.mem_map.mpr ⟨a, ha, hchars⟩)
  rw [hsplit, List.map_append, List.map_cons]
  by_cases hunpaired : m.name.Unpaired
  · have hname : m.readName = text m.name.chars :=
      Literal.flatMap_units_eq_text_iff.mpr ⟨hunpaired, rfl⟩
    rw [hname, lookup_setFields_of_notMem (hother post hnotMem.2)]
    simp [hunpaired]
  · have hne : text m.name.chars ≠ m.readName := fun h =>
      hunpaired (Literal.flatMap_units_eq_text_iff.mp h.symm).1
    rw [lookup_setFields_of_not_assigned]
    · simp [hunpaired]
    · rw [List.map_append, List.map_cons, List.mem_append, List.mem_cons]
      rintro (h | h | h)
      · exact hother pre hnotMem.1 h
      · exact hne h
      · exact hother post hnotMem.2 h

/-- The PIN of a request to set it is the field. -/
theorem handleRequest_setPin {line pin : Bytes} (hok : (parseFlatJson line).ok = true)
    (hop : (parseFlatJson line).get (ascii "op") = ascii "set-pin")
    (hpin : (parseFlatJson line).fields.lookup (ascii "pin") = some pin) (D : Device)
    (deps : ServerDeps) : handleRequest D deps line = handleSetPin D deps pin := by
  have hget : (parseFlatJson line).get (ascii "pin") = pin := by
    rw [JsonRequest.get, hpin]
    rfl
  have hne : ∀ s ∈ [ascii "stats", ascii "list", ascii "delete", ascii "reset"],
      ascii "set-pin" ≠ s := by decide
  simp only [List.forall_mem_cons] at hne
  obtain ⟨hstats, hlist, hdelete, hreset, -⟩ := hne
  rw [handleRequest, if_neg (by rw [hok]; decide), hop, if_neg hstats, if_neg hlist, if_neg hdelete,
    if_neg hreset, if_pos rfl, hget]

/-- **A string is decoded to the UTF-8 of its text** exactly when no `\b` and no `\f` stands
anywhere in the object, and neither the string nor its name is written with a pair. -/
theorem decodes_iff (hm : m ∈ r.members) (hv : m.value = .str v) :
    Decodes r.line m.name.chars v.chars ↔
      (∀ a ∈ r.members, a.Known) ∧ m.name.Unpaired ∧ v.Unpaired := by
  have hne : r.members ≠ [] := List.ne_nil_of_mem hm
  have hread : m.readValue = v.units.flatMap encode := by rw [SpelledMember.readValue, hv]
  by_cases hknown : ∀ a ∈ r.members, a.Known
  · have hparse := parseFlatJson_of_known hne hknown
    have hfield : (parseFlatJson r.line).fields.lookup (text m.name.chars) = some (text v.chars) ↔
        m.name.Unpaired ∧ v.Unpaired := by
      rw [hparse, lookup_setFields_iff hm, hread, Literal.flatMap_units_eq_text_iff]
      simp
    constructor
    · intro h
      exact ⟨hknown, hfield.mp h.field⟩
    · rintro ⟨-, h⟩
      refine ⟨by rw [hparse], hfield.mpr h, fun hname hop D deps => ?_⟩
      refine handleRequest_setPin (by rw [hparse]) hop ?_ D deps
      have hpin : text ['p', 'i', 'n'] = ascii "pin" := by decide
      rw [← hpin, ← hname]
      exact hfield.mpr h
  · constructor
    · intro h
      have hok := h.ok
      rw [parseFlatJson_of_unknown hknown] at hok
      cases hok
    · exact fun h => absurd h.1 hknown

/-- Those of the characters that may stand as they are. -/
def Literal.plain (cs : List Char) : Literal := cs.filterMap fun c =>
  if h : 0x20 ≤ c.toNat ∧ c ≠ '"' ∧ c ≠ '\\' then some (.raw c h.1 h.2.1 h.2.2) else none

/-- A request to set the PIN, with this literal for it. -/
def Request.setPin (v : Literal) : Request where
  members := [
    { name := .plain ['o', 'p'], value := .str (.plain ['s', 'e', 't', '-', 'p', 'i', 'n']) },
    { name := .plain ['p', 'i', 'n'], value := .str v }]
  names_nodup := show [['o', 'p'], ['p', 'i', 'n']].Nodup by decide

theorem Literal.known_plain (cs : List Char) : (plain cs).Known := by
  intro p hp
  obtain ⟨c, -, hc⟩ := List.mem_filterMap.mp hp
  split_ifs at hc
  cases hc
  rintro (h | h) <;> cases h

theorem Literal.unpaired_plain (cs : List Char) : (plain cs).Unpaired := by
  intro p hp
  obtain ⟨c, -, hc⟩ := List.mem_filterMap.mp hp
  split_ifs at hc
  cases hc
  exact id

theorem Request.mem_setPin (v : Literal) :
    { name := .plain ['p', 'i', 'n'], value := .str v } ∈ (setPin v).members :=
  List.mem_cons_of_mem _ List.mem_cons_self

theorem Request.known_setPin (h : v.Known) : ∀ a ∈ (setPin v).members, a.Known := by
  simp only [setPin, List.forall_mem_cons]
  refine ⟨⟨Literal.known_plain _, fun l hl => ?_⟩, ⟨Literal.known_plain _, fun l hl => ?_⟩, by simp⟩
  · cases hl
    exact Literal.known_plain _
  · cases hl
    exact h

/-- `é`, once as an escape and once as it is, and a slash. -/
theorem decodes_iff_setPin : Decodes (Request.setPin [
      .unit 'é' ⟨⟨0, false⟩, ⟨0, false⟩, ⟨14, true⟩, ⟨9, false⟩⟩ (by decide),
      .raw 'é' (by decide) (by decide) (by decide), .short .slash]).line
    ['p', 'i', 'n'] ['é', 'é', '/'] := by
  refine (decodes_iff (Request.mem_setPin _) rfl).mpr
    ⟨Request.known_setPin ?_, Literal.unpaired_plain _, ?_⟩
  · simp [Literal.Known, Piece.IsUnknown]
  · simp [Literal.Unpaired, Piece.IsPair]

/-- `"\b"` is not accepted, and `"\ud83d\ude00"` is not decoded to the UTF-8 of U+1F600. -/
theorem not_decodes : (¬ Decodes (Request.setPin [.short .b]).line ['p', 'i', 'n'] ['\x08']) ∧
    ¬ Decodes (Request.setPin [.pair (Char.ofNat 0x1F600)
        ⟨⟨13, false⟩, ⟨8, false⟩, ⟨3, false⟩, ⟨13, false⟩⟩
        ⟨⟨13, false⟩, ⟨14, false⟩, ⟨0, false⟩, ⟨0, false⟩⟩
        (by decide) (by decide) (by decide)]).line
      ['p', 'i', 'n'] [Char.ofNat 0x1F600] := by
  constructor
  · intro h
    have hok := h.ok
    rw [parseFlatJson_of_unknown] at hok
    · cases hok
    · simp [Request.setPin, SpelledMember.Known, Literal.Known, Piece.IsUnknown]
  · intro h
    have hfield := h.field
    rw [parseFlatJson_of_known (by simp [Request.setPin])
      (Request.known_setPin (by simp [Literal.Known, Piece.IsUnknown]))] at hfield
    have hread := ((lookup_setFields_iff (Request.mem_setPin _) _).mp hfield).2
    exact (Literal.flatMap_units_eq_text_iff.mp hread).1 _ List.mem_cons_self trivial

end Requests

end Swpasskey
