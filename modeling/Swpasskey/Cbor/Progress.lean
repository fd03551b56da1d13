import Swpasskey.Cbor.Reading

/-!
# Progress of the reader

The offset only goes forward and stays within the input (`Forward`), and every read of an
item moves it (`Advances`). `Paced m` says more than a property of the outcome: `m` is put
together from the primitives of the reader, and each iteration of each loop in it, at
whatever depth, fails or moves the offset. So a loop runs its body no more often than there
are bytes left, and once more to fail, whatever count was declared (`iterations_le`).
-/

namespace Swpasskey.Cbor.Reader

open Proc

section Progress

variable {α β : Type} {m : Read α} {f : α → Read β} {r r' r'' : Reader}

/-- The offset has gone forward, within the input. -/
structure Forward (r r' : Reader) : Prop where
  input : r'.input = r.input
  le : r.off ≤ r'.off
  le_max : r'.off ≤ max r.off r.input.length

theorem Forward.refl (r : Reader) : Forward r r := ⟨rfl, le_rfl, le_max_left _ _⟩

theorem Forward.trans (h : Forward r r') (h' : Forward r' r'') : Forward r r'' := by
  obtain ⟨hinput, hle, hmax⟩ := h
  obtain ⟨hinput', hle', hmax'⟩ := h'
  rw [hinput] at hmax'
  exact ⟨hinput'.trans hinput, hle.trans hle', by omega⟩

/-- However the read ends, it ends in front, and it does not die. -/
def Steady (m : Read α) : Prop :=
  ∀ r, m.Run r (fun _ => Forward r) (fun _ => Forward r) fun _ => False

/-- The read fails or moves the offset. -/
def Advances (m : Read α) : Prop :=
  ∀ r, m.Run r (fun _ r' => Forward r r' ∧ r.off < r'.off) (fun _ => Forward r) fun _ => False

theorem Advances.steady (h : Advances m) : Steady m := fun r => (h r).weaken fun _ _ => And.left

theorem steady_pure (a : α) : Steady (pure a) := Forward.refl

theorem steady_throw (e : Status) : Steady (throw e : Read α) := Forward.refl

theorem Steady.bind (hm : Steady m) (hf : ∀ a, Steady (f a)) : Steady (m >>= f) :=
  fun r => (hm r).bind fun a r' h =>
    (hf a r').mono (fun _ _ => h.trans) (fun _ _ => h.trans) fun _ => id

/-- The first read moves the offset. -/
theorem Advances.bind (hm : Advances m) (hf : ∀ a, Steady (f a)) : Advances (m >>= f) := by
  refine fun r => run_bind.mpr ((hm r).mono (fun a r' h => ?_) (fun _ _ => id) fun _ => id)
  exact (hf a r').mono (fun _ r'' h' => ⟨h.1.trans h', h.2.trans_le h'.le⟩) (fun _ _ => h.1.trans)
    fun _ => id

/-- The second read moves the offset. -/
theorem Steady.bind_advances (hm : Steady m) (hf : ∀ a, Advances (f a)) : Advances (m >>= f) :=
  fun r => (hm r).bind fun a r' h => (hf a r').mono
    (fun _ _ h' => ⟨h.trans h'.1, h.le.trans_lt h'.2⟩) (fun _ _ => h.trans) fun _ => id

theorem Steady.loop {f : β → Read β} (hf : ∀ b, Steady (f b)) (n : ℕ) (b : β) :
    Steady (loop f n b) := by
  induction n generalizing b with
  | zero => exact steady_pure b
  | succ n ih => exact (hf b).bind ih

/-! ### Loops -/

/-- How many times a loop with `n` rounds to go runs its body. -/
def iterations (f : β → Read β) : ℕ → β → Reader → ℕ
  | 0, _, _ => 0
  | n + 1, b, r =>
    match f b r with
    | (.ok b', r') => iterations f n b' r' + 1
    | _ => 1

/-- **Declared counts.** A loop whose iterations advance runs its body at most once for every
byte that is left, and once more to fail. -/
theorem iterations_le {f : β → Read β} (hf : ∀ b, Advances (f b)) (n : ℕ) (b : β) (r : Reader) :
    iterations f n b r ≤ r.input.length - r.off + 1 := by
  induction n generalizing b r with
  | zero => exact Nat.zero_le _
  | succ n ih =>
    rw [iterations]
    rcases hread : f b r with ⟨b' | e | _, r'⟩
    · obtain ⟨⟨hinput, hle, hmax⟩, hlt⟩ := (hf b r).ok hread
      have hrest := ih b' r'
      rw [hinput] at hrest
      dsimp only
      omega
    · exact Nat.le_add_left _ _
    · exact Nat.le_add_left _ _

/-- Put together from the primitives of the reader, with loops whose every iteration, at every
nesting level, fails or moves the offset. -/
inductive Paced : {α : Type} → Read α → Prop
  | pure {α : Type} (a : α) : Paced (pure a)
  | throw {α : Type} (e : Status) : Paced (throw e : Read α)
  | takeByte : Paced takeByte
  | takeArgument (extra : ℕ) : Paced (takeArgument extra)
  | takeBytes (n : UInt64) : Paced (takeBytes n)
  | peekMajor : Paced peekMajor
  | bind {α β : Type} {m : Read α} {f : α → Read β} (hm : Paced m) (hf : ∀ a, Paced (f a)) :
    Paced (m >>= f)
  | loop {β : Type} {f : β → Read β} (hf : ∀ b, Paced (f b)) (hadvances : ∀ b, Advances (f b))
    (n : ℕ) (b : β) : Paced (loop f n b)

theorem Paced.ite {c : Prop} [Decidable c] {m m' : Read α} (hm : Paced m) (hm' : Paced m') :
    Paced (if c then m else m') := by
  split
  · exact hm
  · exact hm'

theorem Paced.map (hm : Paced m) (g : α → β) : Paced (m >>= fun a => Pure.pure (g a)) :=
  hm.bind fun a => .pure (g a)

theorem Paced.require (c : Bool) (e : Status) : Paced (Proc.require c e) := by
  cases c
  · exact .throw e
  · exact .pure ()

/-! ### The primitives -/

theorem advances_takeByte : Advances takeByte := by
  intro r
  unfold Run takeByte
  by_cases h : r.off ≥ r.input.length
  · rw [if_pos h]
    exact Forward.refl r
  · rw [if_neg h]
    exact ⟨⟨rfl, Nat.le_succ _, by dsimp only; omega⟩, Nat.lt_succ_self _⟩

/-- The bound is checked before any byte is taken. -/
theorem steady_takeArgument (extra : ℕ) : Steady (takeArgument extra) := by
  intro r
  unfold Run takeArgument
  by_cases h : r.off + extra > r.input.length
  · rw [if_pos h]
    exact Forward.refl r
  · rw [if_neg h]
    exact ⟨rfl, Nat.le_add_right _ _, by dsimp only; omega⟩

theorem steady_takeBytes (n : UInt64) : Steady (takeBytes n) := by
  intro r
  unfold Run takeBytes
  by_cases h : n.toNat > r.input.length - r.off
  · rw [if_pos h]
    exact Forward.refl r
  · rw [if_neg h]
    exact ⟨rfl, Nat.le_add_right _ _, by dsimp only; omega⟩

theorem steady_peekMajor : Steady peekMajor := by
  intro r
  unfold Run peekMajor
  by_cases h : r.off ≥ r.input.length
  · rw [if_pos h]
    exact Forward.refl r
  · rw [if_neg h]
    exact Forward.refl r

/-- What is paced ends within the input. -/
theorem Paced.steady {m : Read α} (h : Paced m) : Steady m := by
  induction h with
  | pure a => exact steady_pure a
  | throw e => exact steady_throw e
  | takeByte => exact advances_takeByte.steady
  | takeArgument extra => exact steady_takeArgument extra
  | takeBytes n => exact steady_takeBytes n
  | peekMajor => exact steady_peekMajor
  | bind hm hf ihm ihf => exact ihm.bind ihf
  | loop hf hadvances n b ih => exact Steady.loop ih n b

/-- A read over a whole byte string ends within it. -/
theorem Paced.run_within (h : Paced m) (input : Bytes) : ∃ o, ∃ off ≤ input.length,
    m { input } = (o, { input, off }) ∧ o ≠ .died := by
  have hrun := run_iff.mp (h.steady { input })
  rcases hread : m { input } with ⟨o, input', off⟩
  have hforward : Forward { input } { input := input', off } ∧ o ≠ .died := by
    rcases o with a | e | _
    · exact ⟨hrun.1 a _ hread, by simp⟩
    · exact ⟨hrun.2.1 e _ hread, by simp⟩
    · exact (hrun.2.2 _ hread).elim
  obtain ⟨⟨hinput, -, hmax⟩, hdied⟩ := hforward
  dsimp only at hinput hmax
  subst hinput
  exact ⟨o, off, by omega, rfl, hdied⟩

/-! ### The readers -/

theorem paced_takeRest (major ai : UInt8) : Paced (takeRest major ai) := by
  refine .ite (.throw _) (.ite ((Paced.takeArgument 1).map _)
    (.ite ((Paced.takeArgument 2).map _) ?_))
  refine .ite ((Paced.takeArgument 4).map _) (.ite ((Paced.takeArgument 8).map _) ?_)
  exact .ite (.throw _) (.pure _)

theorem paced_takeHead : Paced takeHead := Paced.takeByte.bind fun _ => paced_takeRest _ _

theorem advances_takeHead : Advances takeHead :=
  advances_takeByte.bind fun _ => (paced_takeRest _ _).steady

/-- What starts with a head advances. -/
theorem advances_head {f : UInt8 × UInt64 → Read β} (hf : ∀ h, Paced (f h)) :
    Advances (takeHead >>= f) :=
  advances_takeHead.bind fun h => (hf h).steady

theorem paced_headOf (major : UInt8) : Paced (headOf major) :=
  paced_takeHead.bind fun _ => .ite (.throw _) (.pure _)

theorem advances_headOf (major : UInt8) : Advances (headOf major) :=
  advances_head fun _ => .ite (.throw _) (.pure _)

theorem paced_uint : Paced uint := paced_headOf 0

theorem paced_integer : Paced integer :=
  paced_takeHead.bind fun _ => .ite (.ite (.throw _) (.pure _))
    (.ite (.ite (.throw _) (.pure _)) (.throw _))

theorem advances_integer : Advances integer :=
  advances_head fun _ => .ite (.ite (.throw _) (.pure _))
    (.ite (.ite (.throw _) (.pure _)) (.throw _))

theorem paced_bstr : Paced bstr := (paced_headOf 2).bind .takeBytes

theorem paced_tstr : Paced tstr := (paced_headOf 3).bind .takeBytes

theorem advances_tstr : Advances tstr :=
  (advances_headOf 3).bind fun n => (Paced.takeBytes n).steady

theorem paced_boolean : Paced boolean :=
  Paced.takeByte.bind fun _ => .ite (.pure _) (.ite (.pure _) (.throw _))

theorem paced_map : Paced map := (paced_headOf 5).map UInt64.toNat

theorem advances_map : Advances map := (advances_headOf 5).bind fun _ => steady_pure _

theorem paced_array : Paced array := (paced_headOf 4).map UInt64.toNat

/-- However deep, skipping an item takes its head, and so does every item in it. -/
theorem skipDepth_progress (levels : ℕ) :
    Paced (skipDepth levels) ∧ Advances (skipDepth levels) := by
  induction levels with
  | zero => exact ⟨.throw _, fun r => Forward.refl r⟩
  | succ levels ih =>
    obtain ⟨hpaced, hadvances⟩ := ih
    have hitems (n : ℕ) : Paced (Proc.loop (fun _ => skipDepth levels) n ()) :=
      .loop (fun _ => hpaced) (fun _ => hadvances) n ()
    have hentries (n : ℕ) :
        Paced (Proc.loop (fun _ => skipDepth levels >>= fun _ => skipDepth levels) n ()) :=
      .loop (fun _ => hpaced.bind fun _ => hpaced)
        (fun _ => hadvances.bind fun _ => hpaced.steady) n ()
    -- the branches by major type, once the head is read
    have hrest (h : UInt8 × UInt64) : Paced (
        if h.1 = 0 ∨ h.1 = 1 then Pure.pure ()
        else if h.1 = 2 ∨ h.1 = 3 then Reader.takeBytes h.2 >>= fun _ => Pure.pure ()
        else if h.1 = 4 then Proc.loop (fun _ => skipDepth levels) h.2.toNat ()
        else if h.1 = 5 then
          Proc.loop (fun _ => skipDepth levels >>= fun _ => skipDepth levels) h.2.toNat ()
        else if h.1 = 6 then skipDepth levels
        else Pure.pure () : Read Unit) := by
      refine .ite (.pure _) (.ite ((Paced.takeBytes _).map _) (.ite (hitems _) ?_))
      exact .ite (hentries _) (.ite hpaced (.pure _))
    exact ⟨paced_takeHead.bind hrest, advances_head hrest⟩

theorem paced_skip : Paced skip := (skipDepth_progress _).1

end Progress

end Swpasskey.Cbor.Reader
