import Mathlib.Data.List.TakeWhile
import Swpasskey.Lib.Text
import Swpasskey.Ctl.Replies

/-!
# The command line tool

`field` and `print_list` of `swpasskeyctl`, which look for what they print in the text of the reply.
What is printed is a table or the reply itself; the widths of the columns are left out.
-/

namespace Swpasskey

open Text

namespace Cli

/-- `field`: the value behind the first `"key":`, up to the next quote, comma or brace. -/
def field (obj key : Bytes) : Bytes :=
  let k := 0x22 :: key ++ ascii "\":"
  match find k obj with
  | none => []
  | some p =>
    let p := p.drop k.length
    if p.head? = some 0x22 then p.tail.takeWhile (· ≠ 0x22)
    else p.takeWhile fun c => c ≠ 0x2C ∧ c ≠ 0x7D

/-- A line of the table. -/
structure Row where
  rp : Bytes
  user : Bytes
  credId : Bytes
  count : Bytes
  backend : Bytes
  lastUsed : Bytes
  deriving DecidableEq

/-- The objects that the loop of `print_list` cuts out of the reply: from a brace to the next
closing one, and on behind that. -/
def objects (l : Bytes) : List Bytes :=
  let s := l.dropWhile (· ≠ 0x7B)
  let e := s.dropWhile (· ≠ 0x7D)
  if _h : e = [] then []
  else (s.takeWhile (· ≠ 0x7D) ++ [0x7D]) :: objects e.tail
termination_by l.length
decreasing_by
  have hpos : 0 < e.length := List.length_pos_iff.mpr _h
  have hle : e.length ≤ l.length :=
    ((List.dropWhile_suffix _).trans (List.dropWhile_suffix _)).length_le
  change e.tail.length < l.length
  rw [List.length_tail]
  omega

variable (localTime : Bytes → Bytes)

/-- The line for an object. `localTime` is `strtoull`, `localtime_r` and `strftime`. -/
def row (obj : Bytes) : Row where
  rp := field obj (ascii "rp")
  user := field obj (ascii "user")
  credId := (field obj (ascii "cred_id")).take 12
  count := field obj (ascii "sign_count")
  backend := field obj (ascii "backend")
  lastUsed :=
    let lu := field obj (ascii "last_used")
    if lu ≠ [] ∧ lu ≠ ascii "0" then localTime lu else ascii "-"

/-- An object is a credential when there is a `"cred_id"` in it. -/
def isCred (obj : Bytes) : Bool := (find (ascii "\"cred_id\"") obj).isSome

/-- What the loop prints for an object, and its count. -/
def printObject (t : List Row × ℕ) (obj : Bytes) : List Row × ℕ :=
  if isCred obj then (t.1 ++ [row localTime obj], t.2 + 1) else t

/-- What `print_list` prints: the reply, or a table and the total below it. -/
inductive Printed
  | reply (r : Bytes)
  | table (rows : List Row) (total : ℕ)
  deriving DecidableEq

/-- `print_list`. -/
def printList (reply : Bytes) : Printed :=
  match find (ascii "\"creds\":[") reply with
  | none => .reply reply
  | some arr =>
    let t := (objects arr).foldl (printObject localTime) ([], 0)
    .table t.1 t.2

/-! ### The loop -/

/-- The rows of the objects that are printed. -/
def rows (objs : List Bytes) : List Row := (objs.filter isCred).map (row localTime)

theorem foldl_printObject (objs : List Bytes) : objs.foldl (printObject localTime) ([], 0) =
    (rows localTime objs, (rows localTime objs).length) := by
  have hfold : ∀ (objs : List Bytes) (t : List Row × ℕ), objs.foldl (printObject localTime) t =
      (t.1 ++ rows localTime objs, t.2 + (rows localTime objs).length) := by
    intro objs
    induction objs with
    | nil =>
      intro t
      rw [rows, List.filter_nil, List.map_nil, List.append_nil]
      rfl
    | cons obj objs ih =>
      intro t
      rw [List.foldl_cons, ih, printObject]
      by_cases h : isCred obj = true
      · simp only [rows, h, if_true, List.filter_cons_of_pos, List.map_cons, List.append_assoc,
          List.singleton_append, List.length_cons, Nat.add_assoc, Nat.add_comm 1]
      · simp only [rows, h, List.filter_cons_of_neg, not_false_eq_true, Bool.false_eq_true,
          if_false]
  rw [hfold, List.nil_append, Nat.zero_add]

/-- The objects are the pieces between braces. -/
theorem objects_eq_cuts (l : Bytes) : objects l = cuts 0x7B 0x7D none l := by
  have hdrop : ∀ {o : UInt8} {x : Bytes}, o ∉ x → ∀ y,
      (x ++ o :: y).dropWhile (· ≠ o) = o :: y := by
    intro o x hx y
    rw [List.dropWhile_append_of_pos fun b hb => by simpa using ne_of_mem_of_not_mem hb hx,
      List.dropWhile_cons_of_neg (by simp)]
  have hnil : ∀ {o : UInt8} {x : Bytes}, o ∉ x → x.dropWhile (· ≠ o) = [] := by
    intro o x hx
    rw [List.dropWhile_eq_nil_iff]
    exact fun b hb => by simpa using ne_of_mem_of_not_mem hb hx
  induction l using pieces_induction (0x7B : UInt8) 0x7D with
  | outside x hx =>
    rw [objects, hnil hx, cuts_none hx]
    rfl
  | inside x y hx hy =>
    have hy' : (0x7D : UInt8) ∉ 0x7B :: y := by simp [hy]
    rw [objects, hdrop hx, cuts_append_cons hx, cuts_some hy]
    simp only [hnil hy', dif_pos]
  | piece x y z hx hy ih =>
    have hy' : (0x7D : UInt8) ∉ 0x7B :: y := by simp [hy]
    have htake : (0x7B :: y ++ 0x7D :: z).takeWhile (· ≠ (0x7D : UInt8)) = 0x7B :: y := by
      rw [List.takeWhile_append_of_pos fun b hb => by simpa using ne_of_mem_of_not_mem hb hy',
        List.takeWhile_cons_of_neg (by simp), List.append_nil]
    rw [objects, hdrop hx, cuts_append_cons hx, cuts_some_append_cons hy, ← List.cons_append]
    simp only [hdrop hy', htake]
    rw [dif_neg (List.cons_ne_nil _ _), List.tail_cons, ih]
    rfl

end Cli

end Swpasskey
