import Swpasskey.Cbor.Progress

/-!
# Records

A map with known keys is read entry by entry: the key, and by the key its value, which
changes what has been read so far. `record` is this loop, over a table of the known keys
(`Field`); an entry under any other key is read by `other`. What is proved of the table holds
of the loop: it is paced if the reads of the values are (`paced_record`).
-/

namespace Swpasskey.Cbor.Reader

open Proc

variable {κ σ τ α β : Type}

/-! ### The loop over a map -/

/-- A known entry of a map: its key, how its value is read, and what the value changes. -/
structure Field (κ σ : Type) where
  key : κ
  {α : Type}
  value : Read α
  set : α → σ → σ

section Loop

variable [DecidableEq κ]

/-- The value under the key `k`. -/
def readField (other : Read Unit) : List (Field κ σ) → κ → σ → Read σ
  | [], _, b => other >>= fun _ => pure b
  | f :: fields, k, b =>
    if k = f.key then f.value >>= fun v => pure (f.set v b) else readField other fields k b

/-- A map, read entry by entry. -/
def record (key : Read κ) (fields : List (Field κ σ)) (other : Read Unit) (b : σ) : Read σ :=
  map >>= fun n => loop (fun b => key >>= fun k => readField other fields k b) n b

variable {key : Read κ} {fields : List (Field κ σ)} {other : Read Unit}

theorem paced_readField (hfields : ∀ f ∈ fields, Paced f.value) (hother : Paced other) (k : κ)
    (b : σ) : Paced (readField other fields k b) := by
  induction fields with
  | nil => exact hother.map _
  | cons f fields ih =>
    obtain ⟨hf, hrest⟩ := List.forall_mem_cons.mp hfields
    exact .ite (hf.map _) (ih hrest)

/-- Every iteration takes a key. -/
theorem paced_entries (hkey : Paced key) (hadvances : Advances key)
    (hfields : ∀ f ∈ fields, Paced f.value) (hother : Paced other) (n : ℕ) (b : σ) :
    Paced (loop (fun b => key >>= fun k => readField other fields k b) n b) := by
  have hentry := paced_readField hfields hother
  exact .loop (fun b => hkey.bind fun k => hentry k b)
    (fun b => hadvances.bind fun k => (hentry k b).steady) n b

theorem paced_record (hkey : Paced key) (hadvances : Advances key)
    (hfields : ∀ f ∈ fields, Paced f.value) (hother : Paced other) (b : σ) :
    Paced (record key fields other b) :=
  paced_map.bind fun n => paced_entries hkey hadvances hfields hother n b

theorem advances_record (hkey : Paced key) (hadvances : Advances key)
    (hfields : ∀ f ∈ fields, Paced f.value) (hother : Paced other) (b : σ) :
    Advances (record key fields other b) :=
  advances_map.bind fun n => (paced_entries hkey hadvances hfields hother n b).steady

end Loop

/-- Every iteration takes an element. -/
theorem paced_elements {m : Read α} (hm : Paced m) (hadvances : Advances m)
    (g : β → α → β) (b : β) :
    Paced (array >>= fun n => loop (fun b => m >>= fun a => pure (g b a)) n b) :=
  paced_array.bind fun n => .loop (fun b => hm.map (g b))
    (fun b => hadvances.bind fun a => steady_pure (g b a)) n b

/-- A loop that goes on with what a component of its state says. -/
theorem loop_apply {f : τ → Read τ} {g : σ → Read σ} (φ : σ → τ)
    (h : ∀ s, f (φ s) = g s >>= fun s => pure (φ s)) (n : ℕ) (s : σ) :
    loop f n (φ s) = loop g n s >>= fun s => pure (φ s) := by
  induction n generalizing s with
  | zero => rfl
  | succ n ih =>
    change f (φ s) >>= loop f n = (g s >>= loop g n) >>= fun s => pure (φ s)
    rw [h, bind_assoc, bind_assoc]
    refine congrArg (g s >>= ·) (funext fun s' => ?_)
    rw [pure_bind, ih]

end Swpasskey.Cbor.Reader
