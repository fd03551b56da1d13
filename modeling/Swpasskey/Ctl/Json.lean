import Mathlib.Data.Nat.Digits.Lemmas
import Swpasskey.Bytes

/-!
# JSON for the control socket

`JsonWriter` and `parse_flat_json`. The writer keeps a stack of flags, one for each object and array
that is open, whether its next element is the first. The parser reads one flat object; a
`string_view` with an index into it is the bytes from there on.
-/

namespace Swpasskey

/-- `std::to_string` of an unsigned number. -/
def decimal (v : ℕ) : Bytes :=
  if v = 0 then ascii "0" else ((Nat.digits 10 v).map fun d => UInt8.ofNat (0x30 + d)).reverse

/-- A hexadecimal digit, in lower case. -/
def hexChar (n : UInt8) : UInt8 := if n < 10 then 0x30 + n else 0x61 + (n - 10)

/-! ### The writer -/

/-- `JsonWriter`; the back of the vector `first_` is the head of the list. -/
structure JsonWriter where
  out : Bytes := []
  first : List Bool := []
  deriving DecidableEq, Repr

namespace JsonWriter

/-- What `write_str` writes for a byte. -/
def escape (c : UInt8) : Bytes :=
  if c = 0x22 then ascii "\\\""
  else if c = 0x5C then ascii "\\\\"
  else if c = 0x0A then ascii "\\n"
  else if c = 0x0D then ascii "\\r"
  else if c = 0x09 then ascii "\\t"
  else if c < 0x20 then ascii "\\u00" ++ [hexChar (c >>> 4), hexChar (c &&& 0x0F)]
  else [c]

/-- A string literal. -/
def quote (v : Bytes) : Bytes := 0x22 :: v.flatMap escape ++ [0x22]

def put (w : JsonWriter) (l : Bytes) : JsonWriter := { w with out := w.out ++ l }

def pushBack (w : JsonWriter) (b : Bool) : JsonWriter := { w with first := b :: w.first }

def popBack (w : JsonWriter) : JsonWriter := { w with first := w.first.tail }

def sep (w : JsonWriter) : JsonWriter :=
  match w.first with
  | [] => w
  | b :: first => { w.put (if b then [] else ascii ",") with first := false :: first }

def writeStr (w : JsonWriter) (v : Bytes) : JsonWriter := w.put (quote v)

def beginObject (w : JsonWriter) : JsonWriter := (w.sep.put (ascii "\x7b")).pushBack true

def endObject (w : JsonWriter) : JsonWriter := (w.put (ascii "\x7d")).popBack

/-- The flag pushed for the value is gone again before the value is written. -/
def key (w : JsonWriter) (k : Bytes) : JsonWriter :=
  (((w.sep.writeStr k).put (ascii ":")).pushBack true).popBack

def beginArray (w : JsonWriter) (k : Bytes) : JsonWriter :=
  ((w.key k).put (ascii "[")).pushBack true

def endArray (w : JsonWriter) : JsonWriter := (w.put (ascii "]")).popBack

def object (w : JsonWriter) (k : Bytes) : JsonWriter := ((w.key k).put (ascii "\x7b")).pushBack true

def str (w : JsonWriter) (k v : Bytes) : JsonWriter := (w.key k).writeStr v

def num (w : JsonWriter) (k : Bytes) (v : UInt64) : JsonWriter := (w.key k).put (decimal v.toNat)

def boolean (w : JsonWriter) (k : Bytes) (v : Bool) : JsonWriter :=
  (w.key k).put (if v then ascii "true" else ascii "false")

def finish (w : JsonWriter) : Bytes := w.out

end JsonWriter

/-! ### The parser -/

/-- `JsonRequest`; the map keeps the order in which its keys came. -/
structure JsonRequest where
  fields : List (Bytes × Bytes) := []
  ok : Bool := false
  error : Bytes := []
  deriving DecidableEq, Repr

/-- `fields[k] = v`. -/
def setField (k v : Bytes) : List (Bytes × Bytes) → List (Bytes × Bytes)
  | [] => [(k, v)]
  | (k', v') :: l => if k' = k then (k, v) :: l else (k', v') :: setField k v l

/-- `get`. -/
def JsonRequest.get (r : JsonRequest) (k : Bytes) (dflt : Bytes := []) : Bytes :=
  (r.fields.lookup k).getD dflt

def isWs (c : UInt8) : Bool := c = 0x20 || c = 0x09 || c = 0x0D || c = 0x0A

def skipWs (l : Bytes) : Bytes := l.dropWhile isWs

/-- A hexadecimal digit, in either case. -/
def hexDigit (h : UInt8) : Option ℕ :=
  if 0x30 ≤ h ∧ h ≤ 0x39 then some (h - 0x30).toNat
  else if 0x61 ≤ h ∧ h ≤ 0x66 then some (h - 0x61 + 10).toNat
  else if 0x41 ≤ h ∧ h ≤ 0x46 then some (h - 0x41 + 10).toNat
  else none

/-- The four digits of an escape. -/
def hexQuad (hs : List UInt8) : Option ℕ :=
  hs.foldlM (fun v h => (hexDigit h).map fun d => v <<< 4 ||| d) 0

/-- The bytes that an escape of this value appends. -/
def encodeUnit (v : ℕ) : Bytes :=
  if v < 0x80 then [UInt8.ofNat v]
  else if v < 0x800 then [UInt8.ofNat (0xC0 ||| v >>> 6), UInt8.ofNat (0x80 ||| v &&& 0x3F)]
  else [UInt8.ofNat (0xE0 ||| v >>> 12), UInt8.ofNat (0x80 ||| v >>> 6 &&& 0x3F),
    UInt8.ofNat (0x80 ||| v &&& 0x3F)]

/-- The escapes of one character. -/
def unescape (e : UInt8) : Option UInt8 :=
  if e = 0x22 then some 0x22
  else if e = 0x5C then some 0x5C
  else if e = 0x2F then some 0x2F
  else if e = 0x6E then some 0x0A
  else if e = 0x72 then some 0x0D
  else if e = 0x74 then some 0x09
  else none

/-- The loop of `parse_string`: what it appends to `out` up to the closing quote, and what is
behind it. -/
def parseChars (out : Bytes) : Bytes → Option (Bytes × Bytes)
  | [] => none
  | c :: l =>
    if c = 0x22 then some (out, l)
    else if c = 0x5C then
      match l with
      | [] => none
      | e :: l =>
        if e = 0x75 then
          match l with
          | h₁ :: h₂ :: h₃ :: h₄ :: l =>
            match hexQuad [h₁, h₂, h₃, h₄] with
            | some v => parseChars (out ++ encodeUnit v) l
            | none => none
          | _ => none
        else
          match unescape e with
          | some b => parseChars (out ++ [b]) l
          | none => none
    else parseChars (out ++ [c]) l

/-- `parse_string`. -/
def parseString : Bytes → Option (Bytes × Bytes)
  | [] => none
  | c :: l => if c = 0x22 then parseChars [] l else none

/-- A value that is not a string ends in front of these. -/
def endsToken (c : UInt8) : Bool := c = 0x2C || c = 0x7D || c = 0x20 || c = 0x0A

/-- The value of a member. -/
def parseValue (l : Bytes) : Except Bytes (Bytes × Bytes) :=
  if l.head? = some 0x22 then
    match parseString l with
    | some vl => .ok vl
    | none => .error (ascii "bad string")
  else if l.head? = some 0x7B ∨ l.head? = some 0x5B then
    .error (ascii "nested values unsupported")
  else
    let v := l.takeWhile (!endsToken ·)
    if v = [] then .error (ascii "unsupported value") else .ok (v, l.drop v.length)

/-- One turn of the loop of `parse_flat_json` up to the assignment: key, value, and what is left. -/
def parseMember (l : Bytes) : Except Bytes (Bytes × Bytes × Bytes) :=
  match parseString (skipWs l) with
  | none => .error (ascii "bad key")
  | some (k, l) =>
    let l := skipWs l
    if l.head? = some 0x3A then
      match parseValue (skipWs l.tail) with
      | .error e => .error e
      | .ok (v, l) => .ok (k, v, skipWs l)
    else .error (ascii "expected ':'")

/-! A member is not empty, so that the loop ends. -/

theorem length_skipWs_le (l : Bytes) : (skipWs l).length ≤ l.length :=
  (List.dropWhile_suffix isWs).length_le

theorem length_of_parseChars {out v l l' : Bytes} (h : parseChars out l = some (v, l')) :
    l'.length < l.length := by
  fun_induction parseChars out l with
  | case2 out l =>
    cases h
    exact Nat.lt_succ_self _
  | case4 out h₁ h₂ h₃ h₄ l unit _ _ ih =>
    have hlt := ih h
    simp only [List.length_cons]
    omega
  | case7 out e l _ b _ _ ih =>
    have hlt := ih h
    simp only [List.length_cons]
    omega
  | case9 out c l _ _ ih =>
    have hlt := ih h
    rw [List.length_cons]
    omega
  | _ => cases h

theorem length_of_parseString {v l l' : Bytes} (h : parseString l = some (v, l')) :
    l'.length < l.length := by
  cases l with
  | nil => cases h
  | cons c l =>
    rw [parseString] at h
    split_ifs at h
    exact (length_of_parseChars h).trans (Nat.lt_succ_self _)

theorem length_of_parseValue {v l l' : Bytes} (h : parseValue l = .ok (v, l')) :
    l'.length ≤ l.length := by
  rw [parseValue] at h
  dsimp only at h
  split_ifs at h
  · rcases hstr : parseString l with _ | ⟨v', l''⟩ <;> rw [hstr] at h <;> cases h
    exact (length_of_parseString hstr).le
  · cases h
    rw [List.length_drop]
    exact Nat.sub_le _ _

theorem length_of_parseMember {k v l l' : Bytes} (h : parseMember l = .ok (k, v, l')) :
    l'.length < l.length := by
  rw [parseMember] at h
  rcases hkey : parseString (skipWs l) with _ | ⟨k', l₁⟩ <;> rw [hkey] at h
  · cases h
  · dsimp only at h
    split_ifs at h
    rcases hval : parseValue (skipWs (skipWs l₁).tail) with e | ⟨v', l₂⟩ <;> rw [hval] at h <;>
      cases h
    calc (skipWs l₂).length ≤ l₂.length := length_skipWs_le l₂
      _ ≤ (skipWs (skipWs l₁).tail).length := length_of_parseValue hval
      _ ≤ (skipWs l₁).tail.length := length_skipWs_le _
      _ ≤ (skipWs l₁).length := by rw [List.length_tail]; exact Nat.sub_le _ _
      _ ≤ l₁.length := length_skipWs_le l₁
      _ < (skipWs l).length := length_of_parseString hkey
      _ ≤ l.length := length_skipWs_le l

/-- The loop of `parse_flat_json`. -/
def parseMembers (fields : List (Bytes × Bytes)) (l : Bytes) : JsonRequest :=
  match _h : parseMember l with
  | .error e => { fields, error := e }
  | .ok (k, v, []) => { fields := setField k v fields, error := ascii "expected ',' or '\x7d'" }
  | .ok (k, v, c :: l') =>
    if c = 0x2C then parseMembers (setField k v fields) l'
    else if c = 0x7D then { fields := setField k v fields, ok := true }
    else { fields := setField k v fields, error := ascii "expected ',' or '\x7d'" }
termination_by l.length
decreasing_by
  have hlt := length_of_parseMember _h
  rw [List.length_cons] at hlt
  omega

/-- `parse_flat_json`. -/
def parseFlatJson (s : Bytes) : JsonRequest :=
  match skipWs s with
  | [] => { error := ascii "expected object" }
  | c :: l =>
    if c ≠ 0x7B then { error := ascii "expected object" }
    else
      let l := skipWs l
      if l.head? = some 0x7D then { ok := true } else parseMembers [] l

end Swpasskey
