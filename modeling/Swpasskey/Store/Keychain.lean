import Swpasskey.Lib.Machine
import Swpasskey.Bytes
import Swpasskey.Status

/-!
# The fallback keychain

`FallbackKeychain` keeps the DEK of a store in the OS keychain, the primary, and in a file beside
the store when the primary does not answer. Two copies can disagree: nothing removes the copy in
the file when the primary takes a new DEK, nor the one in the primary when the file does, a delete
ignores that the primary did not answer, and the file does not know which id its DEK is for. Once
the primary has failed the process stays with the file, but the next process does not remember.

`load_never_wrong` says when a DEK that is returned is the right one: when no step of the run
leaves a copy behind that is not the current one, and the file is read for the id it was written
for.

`current` and `owner` are there for the statements only.
-/

namespace Swpasskey.Keychain

/-- A data encryption key. -/
abbrev Dek : Type := Block 32

/-! ### The file -/

/-- `FileKeychain::load_dek`; the id is not looked at. `opens` is false when `open` fails for
another reason than that there is no file. -/
def fileLoad (file : Option Bytes) (opens : Bool) : Except Status (Option Dek) :=
  if ¬ opens then .error .other
  else
    match file with
    | none => .ok none
    | some content =>
      match Block.ofBytes? 32 (content.take 32) with
      | some dek => .ok (some dek)
      | none => .error .other  -- too short

/-- `FileKeychain::store_dek`: a temporary file is written and renamed, or nothing happens. -/
def fileStore (dek : Dek) (ok : Bool) (file : Option Bytes) : Except Status Unit × Option Bytes :=
  if ok then (.ok (), some dek.bytes) else (.error .other, file)

/-- `FileKeychain::delete_dek`: what is left of the file. It reports success in any case. -/
def fileDelete (zeroes unlinks : Bool) (file : Option Bytes) : Option Bytes :=
  if unlinks then none
  else if zeroes then file.map fun content => List.replicate 32 0 ++ content.drop 32
  else file

/-! ### The two together -/

/-- The members of `FallbackKeychain`, with the items of the primary and the content of the
file. -/
structure Fallback where
  /-- `primary_` is not null. -/
  hasPrimary : Bool
  primary : Bytes → Option Dek := fun _ => none
  file : Option Bytes := none
  degraded : Bool := false

namespace Fallback

/-- The primary is asked. -/
def asks (k : Fallback) : Bool := k.hasPrimary && !k.degraded

/-- `degrade`. -/
def degrade (k : Fallback) : Fallback := { k with degraded := true }

/-- `load_dek`; the primary answers when it is `up`. -/
def loadDek (k : Fallback) (id : Bytes) (up opens : Bool) :
    Except Status (Option Dek) × Fallback :=
  if k.asks then
    if up then
      match k.primary id with
      | some dek => (.ok (some dek), k)
      | none =>
        match fileLoad k.file opens with
        | .ok (some dek) => (.ok (some dek), k.degrade)  -- an earlier degraded run
        | f => (f, k)
    else (fileLoad k.file opens, k.degrade)
  else (fileLoad k.file opens, k)

/-- `store_dek`; the file takes the DEK when `ok`. -/
def storeDek (k : Fallback) (id : Bytes) (dek : Dek) (up ok : Bool) :
    Except Status Unit × Fallback :=
  if k.asks && up then (.ok (), { k with primary := Function.update k.primary id (some dek) })
  else
    let (r, file) := fileStore dek ok k.file
    (r, { (if k.asks then k.degrade else k) with file })

/-- `delete_dek`: both copies are deleted, and the answer of the primary is ignored. -/
def deleteDek (k : Fallback) (id : Bytes) (up zeroes unlinks : Bool) :
    Except Status Unit × Fallback :=
  (.ok (), { k with
    primary := if k.hasPrimary && up then Function.update k.primary id none else k.primary
    file := fileDelete zeroes unlinks k.file })

end Fallback

/-! ### Runs -/

/-- The keychain, with what its users may expect of it. -/
structure System where
  keychain : Fallback
  /-- The DEK stored last with success under an id, unless it was deleted with success since. -/
  current : Bytes → Option Dek := fun _ => none
  /-- The id the DEK in the file was stored under. -/
  owner : Option Bytes := none

/-- A call, with the answers of the primary and of the file system; or a new process. -/
inductive Action
  | load (id : Bytes) (up opens : Bool)
  | store (id : Bytes) (dek : Dek) (up ok : Bool)
  | delete (id : Bytes) (up zeroes unlinks : Bool)
  | restart

/-- What an action does. -/
def step (s : System) : Action → Option System
  | .load id up opens => some { s with keychain := (s.keychain.loadDek id up opens).2 }
  | .store id dek up ok =>
    match s.keychain.storeDek id dek up ok with
    | (.ok (), keychain) => some {
        keychain
        current := Function.update s.current id (some dek)
        owner := if s.keychain.asks && up then s.owner else some id }
    | (.error _, keychain) => some { s with keychain }
  | .delete id up zeroes unlinks =>
    match s.keychain.deleteDek id up zeroes unlinks with
    | (.ok (), keychain) =>
      some { s with keychain, current := Function.update s.current id none }
    | (.error _, keychain) => some { s with keychain }
  | .restart => some { s with keychain := { s.keychain with degraded := false } }

/-- The load goes to the file. -/
def ReadsFile (k : Fallback) (id : Bytes) (up : Bool) : Prop :=
  ¬ (k.asks = true ∧ up = true ∧ (k.primary id).isSome)

/-- The action leaves no copy behind that is not the current one, and does not read the copy of
another id:
* a DEK that the primary takes is not different from one in the file for the same id;
* a DEK that the file takes is not different from one in the primary;
* the primary answers a delete, if it has the item, and the file is unlinked, if it is there for
  this id or was overwritten;
* a load that goes to the file finds the DEK of its id there, or no file. -/
def Tidy (s : System) : Action → Prop
  | .load id up _ => ReadsFile s.keychain id up → s.keychain.file = none ∨ s.owner = some id
  | .store id dek up ok =>
    if s.keychain.asks && up then
      s.owner = some id → s.keychain.file = none ∨ s.keychain.file = some dek.bytes
    else ok = true → s.keychain.primary id = none ∨ s.keychain.primary id = some dek
  | .delete id up zeroes unlinks =>
    (s.keychain.primary id = none ∨ s.keychain.hasPrimary = true ∧ up = true) ∧
      (fileDelete zeroes unlinks s.keychain.file = none ∨
        s.owner ≠ some id ∧ fileDelete zeroes unlinks s.keychain.file = s.keychain.file)
  | .restart => True

/-! ### No copy is stale -/

/-- Every copy is the current one. -/
structure Fresh (s : System) : Prop where
  primary : ∀ id dek, s.keychain.primary id = some dek → s.current id = some dek
  file : ∀ id content, s.owner = some id → s.keychain.file = some content →
    ∃ dek, s.current id = some dek ∧ content = dek.bytes

variable {s s' : System}

theorem fileLoad_eq_some {file : Option Bytes} {opens : Bool} {dek : Dek}
    (h : fileLoad file opens = .ok (some dek)) :
    ∃ content, file = some content ∧ dek.bytes = content.take 32 := by
  unfold fileLoad at h
  split_ifs at h
  rcases file with _ | content
  · cases h
  refine ⟨content, rfl, ?_⟩
  unfold Block.ofBytes? at h
  by_cases hlen : (content.take 32).length = 32
  · simp only [hlen, dite_true, Except.ok.injEq] at h
    exact congrArg Block.bytes (Option.some.inj h.symm)
  · simp only [hlen, dite_false] at h
    cases h

/-- Where a DEK that is returned comes from. -/
theorem loadDek_eq_some {k : Fallback} {id : Bytes} {up opens : Bool} {dek : Dek}
    (h : (k.loadDek id up opens).1 = .ok (some dek)) :
    k.primary id = some dek ∨ ReadsFile k id up ∧ fileLoad k.file opens = .ok (some dek) := by
  unfold Fallback.loadDek at h
  split_ifs at h with hasks hup
  · rcases hitem : k.primary id with _ | item
    · right
      rw [hitem] at h
      refine ⟨fun hreads => by simp [hitem] at hreads, ?_⟩
      dsimp only at h
      split at h
      · next heq => exact heq.trans h
      · exact h
    · left
      rw [hitem] at h
      exact congrArg some (by cases h; rfl)
  · exact .inr ⟨fun hreads => hup hreads.2.1, h⟩
  · exact .inr ⟨fun hreads => hasks hreads.1, h⟩

/-- A load changes nothing but the flag. -/
theorem loadDek_snd (k : Fallback) (id : Bytes) (up opens : Bool) :
    (k.loadDek id up opens).2 = k ∨ (k.loadDek id up opens).2 = k.degrade := by
  unfold Fallback.loadDek
  split_ifs
  · rcases k.primary id with _ | item
    · dsimp only
      split
      · exact .inr rfl
      · exact .inl rfl
    · exact .inl rfl
  · exact .inr rfl
  · exact .inl rfl

namespace Fresh

/-- The copies and what is expected of them are the same. -/
theorem of_eq (h : Fresh s) (hprimary : s'.keychain.primary = s.keychain.primary)
    (hfile : s'.keychain.file = s.keychain.file) (hcurrent : s'.current = s.current)
    (howner : s'.owner = s.owner) : Fresh s' := by
  constructor
  · rw [hprimary, hcurrent]
    exact h.primary
  · rw [hfile, hcurrent, howner]
    exact h.file

/-- The primary takes the new DEK. -/
theorem storedPrimary (h : Fresh s) {id : Bytes} {dek : Dek} {up ok : Bool}
    (hasks : (s.keychain.asks && up) = true) (htidy : Tidy s (.store id dek up ok))
    (hstep : step s (.store id dek up ok) = some s') : Fresh s' := by
  rw [Tidy, if_pos hasks] at htidy
  rw [Keychain.step, Fallback.storeDek] at hstep
  simp only [hasks, if_true] at hstep
  cases hstep
  constructor
  · intro id' dek' hdek'
    dsimp only at hdek' ⊢
    by_cases hid : id' = id
    · subst hid
      rw [Function.update_self] at hdek' ⊢
      exact hdek'
    · rw [Function.update_of_ne hid] at hdek' ⊢
      exact h.primary id' dek' hdek'
  · intro id' content howner hfile
    dsimp only at howner hfile ⊢
    by_cases hid : id' = id
    · -- a file the id still has holds the new DEK already
      subst hid
      rw [Function.update_self]
      rcases htidy howner with hnone | hsome
      · cases hnone.symm.trans hfile
      · exact ⟨dek, rfl, Option.some.inj (hfile.symm.trans hsome)⟩
    · rw [Function.update_of_ne hid]
      exact h.file id' content howner hfile

/-- The file takes the new DEK, or nothing does. -/
theorem storedFile (h : Fresh s) {id : Bytes} {dek : Dek} {up ok : Bool}
    (hasks : ¬ (s.keychain.asks && up) = true) (htidy : Tidy s (.store id dek up ok))
    (hstep : step s (.store id dek up ok) = some s') : Fresh s' := by
  rw [Tidy, if_neg hasks] at htidy
  rw [Keychain.step, Fallback.storeDek] at hstep
  have hprimary : (if s.keychain.asks then s.keychain.degrade else s.keychain).primary =
      s.keychain.primary := by
    split_ifs <;> rfl
  cases ok with
  | false =>
    simp only [hasks, fileStore] at hstep
    cases hstep
    exact h.of_eq hprimary rfl rfl rfl
  | true =>
    simp only [hasks, fileStore] at hstep
    cases hstep
    constructor
    · intro id' dek' hdek'
      dsimp only at hdek' ⊢
      rw [hprimary] at hdek'
      by_cases hid : id' = id
      · -- an entry the primary still has is the new DEK already
        subst hid
        rw [Function.update_self]
        rcases htidy rfl with hnone | hsome
        · cases hnone.symm.trans hdek'
        · exact hsome.symm.trans hdek'
      · rw [Function.update_of_ne hid]
        exact h.primary id' dek' hdek'
    · intro id' content howner hfile
      simp only [Bool.false_eq_true, if_false, if_true] at howner hfile
      cases howner
      cases hfile
      exact ⟨dek, Function.update_self _ _ _, rfl⟩

theorem store (h : Fresh s) {id : Bytes} {dek : Dek} {up ok : Bool}
    (htidy : Tidy s (.store id dek up ok)) (hstep : step s (.store id dek up ok) = some s') :
    Fresh s' := by
  by_cases hasks : (s.keychain.asks && up) = true
  · exact h.storedPrimary hasks htidy hstep
  · exact h.storedFile hasks htidy hstep

theorem delete (h : Fresh s) {id : Bytes} {up zeroes unlinks : Bool}
    (htidy : Tidy s (.delete id up zeroes unlinks))
    (hstep : step s (.delete id up zeroes unlinks) = some s') : Fresh s' := by
  obtain ⟨hprimary, hfile⟩ := htidy
  cases hstep
  constructor
  · intro id' dek' hdek'
    dsimp only at hdek' ⊢
    by_cases hid : id' = id
    · subst hid
      rcases hprimary with hnone | ⟨hhas, hup⟩
      · split_ifs at hdek'
        · rw [Function.update_self] at hdek'
          cases hdek'
        · cases hnone.symm.trans hdek'
      · rw [hhas, hup, Bool.and_self, if_pos rfl, Function.update_self] at hdek'
        cases hdek'
    · rw [Function.update_of_ne hid]
      refine h.primary id' dek' ?_
      split_ifs at hdek'
      · rwa [Function.update_of_ne hid] at hdek'
      · exact hdek'
  · intro id' content howner hcontent
    dsimp only at howner hcontent ⊢
    rcases hfile with hnone | ⟨hne, hsame⟩
    · cases hnone.symm.trans hcontent
    · have hid : id' ≠ id := fun hid => hne (hid ▸ howner)
      rw [Function.update_of_ne hid]
      exact h.file id' content howner (hsame.symm.trans hcontent)

theorem step (h : Fresh s) {a : Action} (htidy : Tidy s a) (hstep : step s a = some s') :
    Fresh s' := by
  cases a with
  | load id up opens =>
    cases hstep
    rcases loadDek_snd s.keychain id up opens with hk | hk
    · exact h.of_eq (by rw [hk]) (by rw [hk]) rfl rfl
    · exact h.of_eq (by rw [hk]; rfl) (by rw [hk]; rfl) rfl rfl
  | store id dek up ok => exact h.store htidy hstep
  | delete id up zeroes unlinks => exact h.delete htidy hstep
  | restart =>
    cases hstep
    exact h.of_eq rfl rfl rfl rfl

end Fresh

/-- **A tidy keychain never returns a wrong DEK.** From an empty keychain, with the primary and
the file system failing and recovering at every call and with restarts anywhere, along every run
whose steps are tidy: a DEK that a tidy `load_dek` returns is the one stored last with success
under that id, and was not deleted with success since. -/
theorem load_never_wrong (hasPrimary : Bool) (as : List Action) (s : System)
    (htidy : Machine.Along step Tidy { keychain := { hasPrimary } } as)
    (h : Machine.run step { keychain := { hasPrimary } } as = some s) (id : Bytes)
    (up opens : Bool) (hload : Tidy s (.load id up opens)) (dek : Dek)
    (hdek : (s.keychain.loadDek id up opens).1 = .ok (some dek)) : s.current id = some dek := by
  have hfresh : Fresh s := by
    refine Machine.run_induction (I := fun _ => Fresh) ?_ ?_ htidy h
    · exact ⟨fun _ _ hitem => (by cases hitem), fun _ _ _ hfile => (by cases hfile)⟩
    · exact fun _ s₁ a s₂ _ ha hstep hs₁ => hs₁.step ha hstep
  rcases loadDek_eq_some hdek with hitem | ⟨hreads, hfile⟩
  · exact hfresh.primary id dek hitem
  · obtain ⟨content, hcontent, hbytes⟩ := fileLoad_eq_some hfile
    rcases hload hreads with hnone | howner
    · cases hnone.symm.trans hcontent
    · obtain ⟨dek', hcurrent, rfl⟩ := hfresh.file id content howner hcontent
      have htake : dek'.bytes.take 32 = dek'.bytes :=
        List.take_of_length_le dek'.length_bytes.le
      rw [hcurrent, Block.ext (hbytes.trans htake)]

/-- The DEK is stored in the file while the primary is down, and found there after a restart. -/
theorem load_never_wrong_file :
    let dek : Dek := Block.replicate 32 1
    let as : List Action := [.store [7] dek false true, .restart]
    ∃ s, Machine.run step { keychain := { hasPrimary := true } } as = some s ∧
      (s.keychain.loadDek [7] true true).1 = .ok (some dek) ∧ s.current [7] = some dek := by
  intro dek as
  refine ⟨_, rfl, rfl, ?_⟩
  refine load_never_wrong true as _ ?_ rfl [7] true true (fun _ => .inr rfl) dek rfl
  refine Machine.along_cons_iff.mpr ⟨fun _ => .inl rfl, fun s' _ => ?_⟩
  exact Machine.along_cons_iff.mpr ⟨trivial, fun s' _ as₁ a as₂ _ has => absurd has (by simp)⟩

/-- The keychain is locked while the DEK is deleted, and the delete reports success; unlocked, it
answers the next load with the old DEK. -/
theorem not_load_never_wrong : ¬ ∀ (hasPrimary : Bool) (as : List Action) (s : System),
    Machine.run step { keychain := { hasPrimary } } as = some s → ∀ id up opens dek,
      (s.keychain.loadDek id up opens).1 = .ok (some dek) → s.current id = some dek := by
  intro h
  let dek : Dek := Block.replicate 32 1
  have hcurrent := h true [.store [7] dek true true, .delete [7] false true true] _ rfl [7] true
    true dek rfl
  cases hcurrent

end Swpasskey.Keychain
