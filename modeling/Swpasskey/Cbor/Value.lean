import Swpasskey.Cbor.Reading

/-!
# Value trees

What the writer can write is a tree: integers, strings, booleans, arrays and maps. The
reader is told by its caller what to expect, one call per item, so what a tree is read back
by is its **shape**: the calls that belong to it, in the order of the bytes. The round trip
is one induction over the tree; it returns the tree with the entries of every map in the
order of their encoded keys (`Value.sorted`).
-/

namespace Swpasskey.Cbor

/-- A value built with the writer. -/
inductive Value
  | uint (n : UInt64)
  | int (n : Int64)
  | bstr (v : Bytes)
  | tstr (v : Bytes)
  | bool (b : Bool)
  | array (items : List Value)
  | map (entries : List (Value × Value))

/-- The reader calls a value is read back by. -/
inductive Shape
  | uint | integer | bstr | tstr | boolean
  | array (items : List Shape)
  | map (entries : List (Shape × Shape))

namespace Value

mutual

/-- The bytes of a value. -/
def encode : Value → Bytes
  | uint n => encodeUint n
  | int n => encodeInt n.toInt
  | bstr v => encodeBstr v
  | tstr v => encodeTstr v
  | bool b => encodeBool b
  | array items => encodeArrayHeader items.length ++ encodeItems items
  | map entries => encodeMap (encodeEntries entries)

/-- The items of an array, one after the other. -/
def encodeItems : List Value → Bytes
  | [] => []
  | v :: items => v.encode ++ encodeItems items

/-- The entries of a map, as `write_map` takes them. -/
def encodeEntries : List (Value × Value) → List Entry
  | [] => []
  | (k, v) :: entries => (k.encode, v.encode) :: encodeEntries entries

end

mutual

/-- The value with the entries of every map in the order of their encoded keys. -/
def sorted : Value → Value
  | uint n => uint n
  | int n => int n
  | bstr v => bstr v
  | tstr v => tstr v
  | bool b => bool b
  | array items => array (sortedItems items)
  | map entries => map ((sortedEntries entries).insertionSort fun a b => a.1.encode ≤ b.1.encode)

def sortedItems : List Value → List Value
  | [] => []
  | v :: items => v.sorted :: sortedItems items

def sortedEntries : List (Value × Value) → List (Value × Value)
  | [] => []
  | (k, v) :: entries => (k.sorted, v.sorted) :: sortedEntries entries

end

mutual

/-- The reader calls that belong to a value, in its own order. -/
def shape : Value → Shape
  | uint _ => .uint
  | int _ => .integer
  | bstr _ => .bstr
  | tstr _ => .tstr
  | bool _ => .boolean
  | array items => .array (shapeItems items)
  | map entries => .map (shapeEntries entries)

def shapeItems : List Value → List Shape
  | [] => []
  | v :: items => v.shape :: shapeItems items

def shapeEntries : List (Value × Value) → List (Shape × Shape)
  | [] => []
  | (k, v) :: entries => (k.shape, v.shape) :: shapeEntries entries

end

/-- A value that the writer can be given: sizes are `std::size_t`, and the encoded keys of a
map are pairwise distinct. -/
inductive Writable : Value → Prop
  | uint (n : UInt64) : Writable (uint n)
  | int (n : Int64) : Writable (int n)
  | bstr {v : Bytes} (h : v.length < 2 ^ 64) : Writable (bstr v)
  | tstr {v : Bytes} (h : v.length < 2 ^ 64) : Writable (tstr v)
  | bool (b : Bool) : Writable (bool b)
  | array {items : List Value} (h : items.length < 2 ^ 64) (hitems : ∀ v ∈ items, Writable v) :
    Writable (array items)
  | map {entries : List (Value × Value)} (h : entries.length < 2 ^ 64)
    (hkeys : ∀ e ∈ entries, Writable e.1) (hvalues : ∀ e ∈ entries, Writable e.2)
    (hdistinct : (entries.map fun e => e.1.encode).Nodup) : Writable (map entries)

end Value

namespace Shape

open Proc Reader

/-- `n` reads, as the head of an array or a map declares them. -/
def readItems {α : Type} : List (Read α) → ℕ → Read (List α)
  | _, 0 => pure []
  | [], _ + 1 => throw .cborUnexpectedType
  | m :: ms, n + 1 => do
    let a ← m
    return a :: (← readItems ms n)

mutual

/-- The calls of a shape. -/
def read : Shape → Read Value
  | uint => do return .uint (← Reader.uint)
  | integer => do return .int (Int64.ofInt (← Reader.integer))
  | bstr => do return .bstr (← Reader.bstr)
  | tstr => do return .tstr (← Reader.tstr)
  | boolean => do return .bool (← Reader.boolean)
  | array items => do
    let n ← Reader.array
    return .array (← readItems (readsOfItems items) n)
  | map entries => do
    let n ← Reader.map
    return .map (← readItems (readsOfEntries entries) n)

def readsOfItems : List Shape → List (Read Value)
  | [] => []
  | s :: items => s.read :: readsOfItems items

def readsOfEntries : List (Shape × Shape) → List (Read (Value × Value))
  | [] => []
  | (k, v) :: entries => (do return (← k.read, ← v.read)) :: readsOfEntries entries

end

end Shape

/-! ### Lists of values -/

namespace Value

theorem encodeItems_eq (items : List Value) : encodeItems items = items.flatMap encode := by
  induction items with
  | nil => rfl
  | cons v items ih => rw [encodeItems, ih, List.flatMap_cons]

theorem encodeEntries_eq (entries : List (Value × Value)) :
    encodeEntries entries = entries.map fun e => (e.1.encode, e.2.encode) := by
  induction entries with
  | nil => rfl
  | cons e entries ih =>
    obtain ⟨k, v⟩ := e
    rw [encodeEntries, ih, List.map_cons]

theorem sortedItems_eq (items : List Value) : sortedItems items = items.map sorted := by
  induction items with
  | nil => rfl
  | cons v items ih => rw [sortedItems, ih, List.map_cons]

theorem sortedEntries_eq (entries : List (Value × Value)) :
    sortedEntries entries = entries.map fun e => (e.1.sorted, e.2.sorted) := by
  induction entries with
  | nil => rfl
  | cons e entries ih =>
    obtain ⟨k, v⟩ := e
    rw [sortedEntries, ih, List.map_cons]

theorem readsOfItems_shapeItems (items : List Value) :
    Shape.readsOfItems (shapeItems items) = items.map fun v => v.shape.read := by
  induction items with
  | nil => rfl
  | cons v items ih => rw [shapeItems, Shape.readsOfItems, ih, List.map_cons]

theorem readsOfEntries_shapeEntries (entries : List (Value × Value)) :
    Shape.readsOfEntries (shapeEntries entries) =
      entries.map fun e => do return (← e.1.shape.read, ← e.2.shape.read) := by
  induction entries with
  | nil => rfl
  | cons e entries ih =>
    obtain ⟨k, v⟩ := e
    rw [shapeEntries, Shape.readsOfEntries, ih, List.map_cons]

/-- The order of encoded keys. -/
abbrev keyLe (a b : Value × Value) : Prop := a.1.encode ≤ b.1.encode

/-- What is written of a map are its sorted entries. -/
theorem encode_map (entries : List (Value × Value)) : (map entries).encode =
    encodeType 5 (UInt64.ofNat entries.length) ++
      (entries.insertionSort keyLe).flatMap fun e => e.1.encode ++ e.2.encode := by
  have hsort := List.map_insertionSort keyLe (fun a b : Entry => a.1 ≤ b.1)
    (fun e => (e.1.encode, e.2.encode)) entries fun _ _ _ _ => Iff.rfl
  rw [encode, encodeMap, encodeEntries_eq, List.length_map, ← hsort, List.flatMap_map]

/-- Sorting the keys and values of the entries does not change their order. -/
theorem sortedEntries_insertionSort {entries : List (Value × Value)}
    (h : ∀ e ∈ entries, e.1.sorted.encode = e.1.encode) :
    (sortedEntries entries).insertionSort keyLe =
      (entries.insertionSort keyLe).map fun e => (e.1.sorted, e.2.sorted) := by
  rw [sortedEntries_eq]
  refine (List.map_insertionSort keyLe keyLe _ entries fun a ha b hb => ?_).symm
  rw [keyLe, keyLe, h a ha, h b hb]

end Value

/-! ### The round trip -/

namespace Reader

open Proc

/-- Reads one after the other, as many as were written. -/
theorem reads_readItems {α ι : Type} {m : ι → Read α} {enc : ι → Bytes} {val : ι → α} (xs : List ι)
    (h : ∀ x ∈ xs, Reads (m x) (enc x) (val x)) :
    Reads (Shape.readItems (xs.map m) xs.length) (xs.flatMap enc) (xs.map val) := by
  induction xs with
  | nil => exact reads_pure []
  | cons x xs ih =>
    have hrest := ih fun y hy => h y (List.mem_cons_of_mem x hy)
    exact (h x List.mem_cons_self).bind (hrest.map _)

theorem reads_integer (n : Int64) : Reads integer (encodeInt n.toInt) n.toInt := by
  have hlow := n.le_toInt
  have hhigh := n.toInt_lt
  -- an argument of up to 63 bits passes the bound, and is what was written
  have harg : ∀ k : ℕ, k < 2 ^ 63 →
      ¬ UInt64.ofNat k > 0x7FFFFFFFFFFFFFFF ∧ (UInt64.ofNat k).toNat = k := by
    intro k hk
    have hnat : (UInt64.ofNat k).toNat = k := Nat.mod_eq_of_lt (by omega)
    refine ⟨?_, hnat⟩
    rw [gt_iff_lt, UInt64.lt_iff_toNat_lt, hnat]
    exact not_lt.mpr (Nat.le_of_lt_succ hk)
  rw [integer, encodeInt]
  by_cases hsign : 0 ≤ n.toInt
  · obtain ⟨hle, hnat⟩ := harg n.toInt.toNat (by omega)
    rw [if_pos hsign]
    refine (reads_takeHead 0 _ (by decide)).bind_nil ?_
    rw [if_pos rfl, if_neg hle, hnat, Int.toNat_of_nonneg hsign]
    exact reads_pure _
  · obtain ⟨hle, hnat⟩ := harg (-1 - n.toInt).toNat (by omega)
    rw [if_neg hsign]
    refine (reads_takeHead 1 _ (by decide)).bind_nil ?_
    rw [if_neg (show (1 : UInt8) ≠ 0 by decide), if_pos rfl, if_neg hle, hnat,
      Int.toNat_of_nonneg (by omega),
      sub_sub_cancel]
    exact reads_pure _

end Reader

namespace Value

open Reader

/-- Writing does not look at the order of a map's entries. -/
theorem Writable.encode_sorted {v : Value} (h : v.Writable) : v.sorted.encode = v.encode := by
  induction h with
  | uint n => rfl
  | int n => rfl
  | bstr h => rfl
  | tstr h => rfl
  | bool b => rfl
  | array h hitems ih =>
    rw [sorted, encode, encode, sortedItems_eq, encodeItems_eq, encodeItems_eq, List.length_map,
      List.flatMap_map]
    congr 1
    exact List.flatMap_congr fun v hv => ih v hv
  | @map entries h hkeys hvalues hdistinct ihk ihv =>
    have hsorted := List.pairwise_insertionSort keyLe (sortedEntries entries)
    rw [sorted, encode_map, encode_map, hsorted.insertionSort_eq, List.length_insertionSort,
      sortedEntries_insertionSort ihk, List.flatMap_map, sortedEntries_eq, List.length_map]
    congr 1
    refine List.flatMap_congr fun e he => ?_
    have he' := (List.mem_insertionSort _).mp he
    rw [ihk e he', ihv e he']

/-- The shape of the sorted value reads the value back. -/
theorem Writable.reads {v : Value} (h : v.Writable) :
    Reads v.sorted.shape.read v.encode v.sorted := by
  induction h with
  | uint n => exact (reads_uint n).map _
  | int n =>
    have hread := (reads_integer n).map fun i => Value.int (Int64.ofInt i)
    rwa [Int64.ofInt_toInt] at hread
  | bstr h => exact (reads_bstr h).map _
  | tstr h => exact (reads_tstr h).map _
  | bool b => exact (reads_boolean b).map _
  | @array items h hitems ih =>
    rw [encode, sorted, shape, Shape.read, readsOfItems_shapeItems, encodeItems_eq, sortedItems_eq,
      List.map_map]
    refine (reads_array h).bind ((reads_readItems items fun v hv => ?_).map _)
    exact ih v hv
  | @map entries h hkeys hvalues hdistinct ihk ihv =>
    have hlength : (entries.insertionSort keyLe).length = entries.length :=
      List.length_insertionSort _ _
    rw [encode_map, sorted, shape, Shape.read, readsOfEntries_shapeEntries,
      sortedEntries_insertionSort fun e he => (hkeys e he).encode_sorted, List.map_map]
    refine (reads_map h).bind (Reads.map ?_ _)
    -- the entries are read in the order in which they are written, the sorted one
    rw [← hlength]
    refine reads_readItems _ fun e he => ?_
    have he' := (List.mem_insertionSort _).mp he
    exact (ihk e he').bind ((ihv e he').map _)

/-- `std::sort` is not stable, but has no choice: the entries of a map have one order. -/
theorem Writable.sort_unique {entries es : List (Value × Value)} (h : (Value.map entries).Writable)
    (hperm : es.Perm entries) (hes : es.Pairwise keyLe) : es = entries.insertionSort keyLe := by
  cases h with
  | map _ _ _ hdistinct =>
    refine List.Perm.eq_of_pairwise (fun a b ha hb hab hba => ?_) hes
      (List.pairwise_insertionSort keyLe entries)
      (hperm.trans (List.perm_insertionSort keyLe entries).symm)
    exact List.inj_on_of_nodup_map hdistinct (hperm.subset ha) ((List.mem_insertionSort _).mp hb)
      (List.le_antisymm hab hba)

/-- **The round trip.** Wherever a value stands in the input, and whatever follows it, the
reader calls of its shape return the value, with the entries of its maps sorted, and stop
behind it. -/
theorem read_encode {v : Value} (h : v.Writable) (before after : Bytes) :
    v.sorted.shape.read { input := before ++ v.encode ++ after, off := before.length } =
      (.ok v.sorted,
        { input := before ++ v.encode ++ after, off := before.length + v.encode.length }) :=
  h.reads before after

/-- A map with a nested array, its entries not in the order of their keys. -/
def sample : Value :=
  map [(tstr (ascii "b"), uint 300), (int (-1), array [bool true, bstr [1, 2]])]

theorem read_encode_sample : sample.Writable ∧
    sample.sorted.shape.read ⟨[7] ++ sample.encode ++ [8, 9], 1⟩ =
      (.ok sample.sorted, ⟨[7] ++ sample.encode ++ [8, 9], 1 + sample.encode.length⟩) := by
  have hitems : ∀ v ∈ [bool true, bstr [1, 2]], Writable v := by
    rw [List.forall_mem_cons, List.forall_mem_singleton]
    exact ⟨.bool true, .bstr (by decide)⟩
  have h : sample.Writable := by
    refine .map (by decide) ?_ ?_ (by decide)
    · rw [List.forall_mem_cons, List.forall_mem_singleton]
      exact ⟨.tstr (by decide), .int (-1)⟩
    · rw [List.forall_mem_cons, List.forall_mem_singleton]
      exact ⟨.uint 300, .array (by decide) hitems⟩
  exact ⟨h, read_encode h [7] [8, 9]⟩

end Value

end Swpasskey.Cbor
