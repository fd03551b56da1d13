import Swpasskey.Lib.Proc
import Swpasskey.Status

/-!
# The CBOR subset

`cbor::Writer` and `cbor::Reader`: definite-length CBOR with shortest heads, map entries
sorted by their encoded keys. The writer's functions return the bytes they append; the
reader is a procedure over the input and the current offset, so that a failed read leaves
the offset where the source leaves it.
-/

namespace Swpasskey.Cbor

/-! ### Writer -/

/-- `encode_type`: a head with major type `major` and argument `n`, in the shortest form. -/
def encodeType (major : UInt8) (n : UInt64) : Bytes :=
  let mt := major <<< 5
  if n < 24 then [mt ||| n.toUInt8]
  else if n ≤ 0xFF then [mt ||| 24, n.toUInt8]
  else if n ≤ 0xFFFF then [mt ||| 25, (n >>> 8).toUInt8, n.toUInt8]
  else if n ≤ 0xFFFFFFFF then
    [mt ||| 26, (n >>> 24).toUInt8, (n >>> 16).toUInt8, (n >>> 8).toUInt8, n.toUInt8]
  else
    [mt ||| 27, (n >>> 56).toUInt8, (n >>> 48).toUInt8, (n >>> 40).toUInt8, (n >>> 32).toUInt8,
      (n >>> 24).toUInt8, (n >>> 16).toUInt8, (n >>> 8).toUInt8, n.toUInt8]

/-- An unsigned integer. -/
def encodeUint (v : UInt64) : Bytes := encodeType 0 v

/-- A signed 64-bit integer. -/
def encodeInt (v : ℤ) : Bytes :=
  if 0 ≤ v then encodeUint (UInt64.ofNat v.toNat)
  else encodeType 1 (UInt64.ofNat (-1 - v).toNat)

/-- A byte string. -/
def encodeBstr (v : Bytes) : Bytes := encodeType 2 (UInt64.ofNat v.length) ++ v

/-- A text string; the writer does not look at the encoding. -/
def encodeTstr (v : Bytes) : Bytes := encodeType 3 (UInt64.ofNat v.length) ++ v

/-- A boolean. -/
def encodeBool (v : Bool) : Bytes := if v then [0xF5] else [0xF4]

/-- The head of an array of `n` items. -/
def encodeArrayHeader (n : ℕ) : Bytes := encodeType 4 (UInt64.ofNat n)

/-- A map entry: encoded key, encoded value. -/
abbrev Entry : Type := Bytes × Bytes

/-- `write_map`: entries sorted by their encoded keys. -/
def encodeMap (entries : List Entry) : Bytes :=
  encodeType 5 (UInt64.ofNat entries.length) ++
    (entries.insertionSort fun a b => a.1 ≤ b.1).flatMap fun e => e.1 ++ e.2

/-! ### Reader -/

/-- A reader: the input and the offset of the next byte. -/
structure Reader where
  input : Bytes
  off : ℕ := 0
  deriving DecidableEq, Repr

namespace Reader

/-- A read: it moves the offset and may fail. -/
abbrev Read (α : Type) : Type := Proc Reader Status α

open Proc

/-- The next byte, or `InvalidCbor` at the end of the input. -/
def takeByte : Read UInt8 := fun r =>
  if r.off ≥ r.input.length then (.err .invalidCbor, r)
  else (.ok (r.input.getD r.off 0), { r with off := r.off + 1 })

/-- The big-endian number in the next `extra` bytes; the bound is checked before any is
taken. -/
def takeArgument (extra : ℕ) : Read UInt64 := fun r =>
  if r.off + extra > r.input.length then (.err .invalidCbor, r)
  else
    (.ok (((r.input.drop r.off).take extra).foldl (fun n b => (n <<< 8) ||| b.toUInt64) 0),
      { r with off := r.off + extra })

/-- `take_head`: major type and argument of the next item. -/
def takeHead : Read (UInt8 × UInt64) := do
  let ib ← takeByte
  let major := ib >>> 5
  let ai := ib &&& 0x1F
  if ai = 31 then throw .invalidCbor  -- indefinite length
  else if ai = 24 then return (major, ← takeArgument 1)
  else if ai = 25 then return (major, ← takeArgument 2)
  else if ai = 26 then return (major, ← takeArgument 4)
  else if ai = 27 then return (major, ← takeArgument 8)
  else if ai > 27 then throw .invalidCbor
  else return (major, ai.toUInt64)

/-- `take_bytes`. -/
def takeBytes (n : UInt64) : Read Bytes := fun r =>
  if n.toNat > r.input.length - r.off then (.err .invalidCbor, r)
  else (.ok ((r.input.drop r.off).take n.toNat), { r with off := r.off + n.toNat })

/-- The argument of the next item, which must have the given major type. -/
def headOf (major : UInt8) : Read UInt64 := do
  let h ← takeHead
  if h.1 ≠ major then throw .cborUnexpectedType else return h.2

/-- `Reader::uint`. -/
def uint : Read UInt64 := headOf 0

/-- `Reader::integer`: a signed 64-bit integer. -/
def integer : Read ℤ := do
  let h ← takeHead
  if h.1 = 0 then
    if h.2 > 0x7FFFFFFFFFFFFFFF then throw .invalidCbor else return (h.2.toNat : ℤ)
  else if h.1 = 1 then
    if h.2 > 0x7FFFFFFFFFFFFFFF then throw .invalidCbor else return -1 - (h.2.toNat : ℤ)
  else throw .cborUnexpectedType

/-- `Reader::bstr`. -/
def bstr : Read Bytes := do takeBytes (← headOf 2)

/-- `Reader::tstr`. -/
def tstr : Read Bytes := do takeBytes (← headOf 3)

/-- `Reader::boolean`. -/
def boolean : Read Bool := do
  let ib ← takeByte
  if ib = 0xF4 then return false
  else if ib = 0xF5 then return true
  else throw .cborUnexpectedType

/-- `Reader::map`: the number of entries. -/
def map : Read ℕ := do return (← headOf 5).toNat

/-- `Reader::array`: the number of elements. -/
def array : Read ℕ := do return (← headOf 4).toNat

/-- `Reader::peek_major`: does not consume. -/
def peekMajor : Read UInt8 := fun r =>
  if r.off ≥ r.input.length then (.err .invalidCbor, r)
  else (.ok (r.input.getD r.off 0 >>> 5), r)

/-- `kMaxSkipDepth`. -/
def kMaxSkipDepth : ℕ := 32

/-- `skip_depth`, counting down the levels still allowed: with `0` left the depth is past
`kMaxSkipDepth`. -/
def skipDepth : ℕ → Read Unit
  | 0 => throw .invalidCbor
  | levels + 1 => do
    let h ← takeHead
    if h.1 = 0 ∨ h.1 = 1 then return ()
    else if h.1 = 2 ∨ h.1 = 3 then
      let _ ← takeBytes h.2
      return ()
    else if h.1 = 4 then loop (fun _ => skipDepth levels) h.2.toNat ()
    else if h.1 = 5 then
      loop (fun _ => skipDepth levels >>= fun _ => skipDepth levels) h.2.toNat ()
    else if h.1 = 6 then skipDepth levels  -- tag: skip the tagged item
    else return ()  -- simple values and floats: the head consumed their bytes

/-- `Reader::skip`: one complete item. -/
def skip : Read Unit := skipDepth (kMaxSkipDepth + 1)

/-- Run a read over a whole byte string. -/
def parseWith {α : Type} (m : Read α) (body : Bytes) : Except Status α :=
  match (m { input := body }).1 with
  | .ok a => .ok a
  | .err e => .error e
  | .died => .error .other  -- no read dies

end Reader

end Swpasskey.Cbor
