import Swpasskey.Ctap.Frames

/-!
# The bound on wrong PIN guesses

Over every run, with any persister failures and with restarts from whatever snapshot the
file holds, at most eight wrong hashes in a row are compared against one **installation**
of a PIN (`guesses_bounded`).

The retry counter lives in memory and, at some other value, in the file, and a restart
swaps one for the other. Which installation each of the two counters belongs to is not
stored anywhere: `PinHistory` reads it off the log. The invariant `PinInv` bounds, for
memory and for the file separately, the wrong guesses of the installation plus the retries
left. A comparison keeps it because the spent retry is on disk before the comparison is
made, so that at that moment memory and file are the same installation.
-/

namespace Swpasskey

open Proc

/-! ### Installations, read off the log -/

/-- What the log says about PIN installations. They are numbered in the order in which they
reached `CredentialStore::set_pin`. -/
structure PinHistory where
  /-- The hash of every installation. -/
  installed : List (Block 16) := []
  /-- The installation in memory. -/
  mem : Option ℕ := none
  /-- The installation in the file. -/
  file : Option ℕ := none
  /-- Wrong hashes compared against an installation since the last correct one. -/
  wrong : ℕ → ℕ := fun _ => 0

/-- One event. -/
def PinHistory.step (h : PinHistory) : Event → PinHistory
  | .pinInstalled hash =>
    { h with installed := h.installed ++ [hash], mem := some h.installed.length }
  | .pinWiped => { h with mem := none }
  | .flushed _ ok => if ok then { h with file := h.mem } else h
  | .persisterReset _ wiped => if wiped then { h with file := none } else h
  | .restarted => { h with mem := h.file }
  | .pinCompared _ equal =>
    match h.mem with
    | none => h
    | some i =>
      { h with wrong := Function.update h.wrong i (if equal then 0 else h.wrong i + 1) }
  | _ => h

/-- The history a log tells. -/
def pinHistory (log : List Event) : PinHistory := log.foldl PinHistory.step {}

@[simp] theorem pinHistory_concat (log : List Event) (ev : Event) :
    pinHistory (log ++ [ev]) = (pinHistory log).step ev := by
  simp [pinHistory]

/-- **The bound.** At every moment no installation has more than eight wrong comparisons
since the last correct one, and a comparison is only ever made against an installation with
fewer than eight, whose hash it is. -/
structure GuessesBounded (log : List Event) : Prop where
  wrong_le : ∀ l, l <+: log → ∀ i, (pinHistory l).wrong i ≤ 8
  compared : ∀ l hash equal, l ++ [.pinCompared hash equal] <+: log →
    ∃ i, (pinHistory l).mem = some i ∧ (pinHistory l).installed[i]? = some hash ∧
      (pinHistory l).wrong i < 8

theorem GuessesBounded.concat {log : List Event} (h : GuessesBounded log) {ev : Event}
    (hwrong : ∀ i, (pinHistory (log ++ [ev])).wrong i ≤ 8)
    (hcompared : ∀ hash equal, ev = .pinCompared hash equal →
      ∃ i, (pinHistory log).mem = some i ∧ (pinHistory log).installed[i]? = some hash ∧
        (pinHistory log).wrong i < 8) : GuessesBounded (log ++ [ev]) where
  wrong_le l hl := by
    rcases List.prefix_concat_iff.mp hl with rfl | hl
    · exact hwrong
    · exact h.wrong_le l hl
  compared l hash equal hl := by
    rcases List.prefix_concat_iff.mp hl with heq | hl
    · obtain ⟨rfl, hev⟩ := List.append_inj' heq rfl
      exact hcompared hash equal (List.singleton_inj.mp hev).symm
    · exact h.compared l hash equal hl

/-! ### The invariant -/

/-- A PIN state is within the budget of an installation: the installation has its hash, and
wrong guesses and retries left make at most eight. -/
def WithinBudget (h : PinHistory) (inst : Option ℕ) (p : PinState) : Prop :=
  ∀ hash, p.hash = some hash →
    ∃ i, inst = some i ∧ h.installed[i]? = some hash ∧ h.wrong i + p.retries.toNat ≤ 8

/-- The invariant of runs. -/
structure PinInv (w : World) : Prop where
  log : GuessesBounded w.log
  fresh : ∀ i, (pinHistory w.log).installed.length ≤ i → (pinHistory w.log).wrong i = 0
  mem : WithinBudget (pinHistory w.log) (pinHistory w.log).mem w.store.pin
  file : ∀ s, w.file = some s → WithinBudget (pinHistory w.log) (pinHistory w.log).file s.pin

namespace PinInv

variable {w : World}

theorem wrong_le (h : PinInv w) (i : ℕ) : (pinHistory w.log).wrong i ≤ 8 :=
  h.log.wrong_le w.log (List.prefix_refl _) i

/-- Only the PIN in memory, the file and the log matter. -/
theorem congr (h : PinInv w) {w' : World} (hpin : w'.store.pin = w.store.pin)
    (hfile : w'.file = w.file) (hlog : w'.log = w.log) : PinInv w' where
  log := hlog ▸ h.log
  fresh := hlog ▸ h.fresh
  mem := by rw [hlog, hpin]; exact h.mem
  file := by rw [hlog, hfile]; exact h.file

theorem withEnv (h : PinInv w) (e : Env) : PinInv (w.withEnv e) := h.congr rfl rfl rfl

/-- The invariant after one more event. -/
theorem of_concat (h : PinInv w) {w' : World} {ev : Event} (hlog : w'.log = w.log ++ [ev])
    (hwrong : ∀ i, ((pinHistory w.log).step ev).wrong i ≤ 8)
    (hcompared : ∀ hash equal, ev = .pinCompared hash equal →
      ∃ i, (pinHistory w.log).mem = some i ∧ (pinHistory w.log).installed[i]? = some hash ∧
        (pinHistory w.log).wrong i < 8)
    (hfresh : ∀ i, ((pinHistory w.log).step ev).installed.length ≤ i →
      ((pinHistory w.log).step ev).wrong i = 0)
    (hmem : WithinBudget ((pinHistory w.log).step ev) ((pinHistory w.log).step ev).mem w'.store.pin)
    (hfile : ∀ s, w'.file = some s →
      WithinBudget ((pinHistory w.log).step ev) ((pinHistory w.log).step ev).file s.pin) :
    PinInv w' := by
  have hh : pinHistory w'.log = (pinHistory w.log).step ev := by rw [hlog, pinHistory_concat]
  constructor
  · rw [hlog]
    exact h.log.concat (by rwa [pinHistory_concat]) hcompared
  · rwa [hh]
  · rwa [hh]
  · rwa [hh]

/-- An event the history does not look at. -/
theorem emits (h : PinInv w) {ev : Event} (hev : (pinHistory w.log).step ev = pinHistory w.log)
    (hne : ∀ hash equal, ev ≠ .pinCompared hash equal) : PinInv (w.emits [ev]) :=
  h.of_concat rfl (by rw [hev]; exact h.wrong_le) (fun hash equal he => absurd he (hne hash equal))
    (by rw [hev]; exact h.fresh) (by rw [hev]; exact h.mem) (by rw [hev]; exact h.file)

/-- A flush copies memory, counter and installation, into the file, or does nothing. -/
theorem flushed (h : PinInv w) (m : Mutator) (e : Env) (ok : Bool) : PinInv (w.flushed m e ok) := by
  cases ok with
  | false => exact (h.withEnv e).emits rfl fun _ _ => Event.noConfusion
  | true =>
    refine h.of_concat rfl h.wrong_le (fun _ _ he => Event.noConfusion he) h.fresh h.mem ?_
    intro s hs
    obtain rfl : w.store.reopened = s := Option.some.inj hs
    exact h.mem

/-- A new PIN is a new installation, with no guesses against it. -/
theorem installed (h : PinInv w) (hash : Block 16) :
    PinInv ((w.emits [.pinInstalled hash]).withPin ⟨some hash, PinManager.kMaxRetries⟩) := by
  -- what was installed before keeps its number
  have hold : ∀ inst p, WithinBudget (pinHistory w.log) inst p →
      WithinBudget ((pinHistory w.log).step (.pinInstalled hash)) inst p := by
    intro inst p hp x hx
    obtain ⟨i, hi, hix, hle⟩ := hp x hx
    exact ⟨i, hi, List.getElem?_append_left (List.getElem?_eq_some_iff.mp hix).1 ▸ hix, hle⟩
  refine h.of_concat rfl h.wrong_le (fun _ _ he => Event.noConfusion he) ?_ ?_ fun s hs =>
    hold _ _ (h.file s hs)
  · intro i hi
    refine h.fresh i (Nat.le_trans ?_ hi)
    simp [PinHistory.step]
  · rintro x hx
    obtain rfl : hash = x := Option.some.inj hx
    refine ⟨_, rfl, List.getElem?_concat_length, ?_⟩
    have h0 : ((pinHistory w.log).step (.pinInstalled hash)).wrong
      (pinHistory w.log).installed.length
        = 0 := h.fresh _ le_rfl
    rw [h0]
    exact (by decide : 0 + PinManager.kMaxRetries.toNat ≤ 8)

/-- Spending a retry makes room for a wrong guess. -/
theorem budget_of_retries (h : PinInv w) {hash : Block 16} (hhash : w.store.pin.hash = some hash)
    (hr : w.store.pin.retries ≠ 0) :
    ∃ i, (pinHistory w.log).mem = some i ∧ (pinHistory w.log).installed[i]? = some hash ∧
      (pinHistory w.log).wrong i + 1 + (w.store.pin.retries - 1).toNat ≤ 8 := by
  obtain ⟨i, hi, hix, hle⟩ := h.mem hash hhash
  have hpos : 0 < w.store.pin.retries.toNat :=
    UInt8.lt_iff_toNat_lt.mp (UInt8.pos_iff_ne_zero.mpr hr)
  have hpred : (w.store.pin.retries - 1).toNat = w.store.pin.retries.toNat - 1 :=
    UInt8.toNat_sub_of_le _ _ (UInt8.le_iff_toNat_le.mpr hpos)
  exact ⟨i, hi, hix, by omega⟩

theorem spent (h : PinInv w) {hash : Block 16} (hhash : w.store.pin.hash = some hash)
    (hr : w.store.pin.retries ≠ 0) : PinInv (PinManager.spent w hash) := by
  refine ⟨h.log, h.fresh, ?_, h.file⟩
  rintro x hx
  obtain rfl : hash = x := Option.some.inj hx
  obtain ⟨i, hi, hix, hle⟩ := h.budget_of_retries hhash hr
  exact ⟨i, hi, hix, Nat.le_trans (Nat.add_le_add_right (Nat.le_succ _) _) hle⟩

/-- **A comparison keeps the invariant.** Memory and file are the same installation, and
both have the spent retry. After a match nothing stands against the installation. -/
theorem compared (h : PinInv w) {hash : Block 16} (hhash : w.store.pin.hash = some hash)
    (hr : w.store.pin.retries ≠ 0) (e : Env) (equal : Bool) :
    PinInv (PinManager.compared w hash e equal) ∧
      ∃ i, (pinHistory (PinManager.compared w hash e equal).log).mem = some i ∧
        (pinHistory (PinManager.compared w hash e equal).log).installed[i]? = some hash ∧
        (equal = true → (pinHistory (PinManager.compared w hash e equal).log).wrong i = 0) := by
  have hf := (h.spent hhash hr).flushed .setPin e true
  obtain ⟨i, hi, hix, hle⟩ := h.budget_of_retries hhash hr
  set wf := (PinManager.spent w hash).flushed .setPin e true with hwf
  have hhist : pinHistory wf.log = { pinHistory w.log with file := (pinHistory w.log).mem } :=
    pinHistory_concat _ _
  have hstep : (pinHistory wf.log).step (.pinCompared hash equal) =
      { pinHistory w.log with
        file := some i
        wrong := Function.update (pinHistory w.log).wrong i
          (if equal then 0 else (pinHistory w.log).wrong i + 1) } := by
    rw [hhist]
    simp only [PinHistory.step, hi]
  -- the retry was spent before the comparison, so a wrong guess is paid for
  have hself : (if equal then 0 else (pinHistory w.log).wrong i + 1) +
      (w.store.pin.retries - 1).toNat ≤ 8 := by
    cases equal <;> simp only [if_true, Bool.false_eq_true, if_false] <;> omega
  -- the budget of any state that still has this hash and one retry less
  have hbudget : ∀ p : PinState, p.retries = w.store.pin.retries - 1 → p.hash = some hash →
      WithinBudget ((pinHistory wf.log).step (.pinCompared hash equal)) (some i) p := by
    intro p hp hph x hx
    obtain rfl : hash = x := Option.some.inj (hph.symm.trans hx)
    refine ⟨i, rfl, by rw [hstep]; exact hix, ?_⟩
    rw [hstep, hp]
    simpa using hself
  refine ⟨hf.of_concat rfl ?_ ?_ ?_ ?_ ?_, i, ?_⟩
  · intro j
    rw [hstep]
    rcases eq_or_ne j i with rfl | hj
    · simpa using Nat.le_trans (Nat.le_add_right _ _) hself
    · simpa [Function.update_of_ne hj] using h.wrong_le j
  · intro x b hx
    obtain ⟨rfl, rfl⟩ : hash = x ∧ equal = b := by simpa using hx
    refine ⟨i, by rw [hhist]; exact hi, by rw [hhist]; exact hix, ?_⟩
    rw [hhist]
    change (pinHistory w.log).wrong i < 8
    omega
  · intro j hj
    rw [hstep] at hj ⊢
    have hji : j ≠ i := fun heq =>
      absurd (List.getElem?_eq_some_iff.mp hix).1 (not_lt.mpr (heq ▸ hj))
    simpa [Function.update_of_ne hji] using h.fresh j hj
  · have hmem : ((pinHistory wf.log).step (.pinCompared hash equal)).mem = some i := by
      rw [hstep]; exact hi
    rw [hmem]
    exact hbudget _ rfl rfl
  · intro s hs
    obtain rfl : (PinManager.spent w hash).store.reopened = s := Option.some.inj hs
    have hfile : ((pinHistory wf.log).step (.pinCompared hash equal)).file = some i := by
      rw [hstep]
    rw [hfile]
    exact hbudget _ rfl rfl
  · have hlog : pinHistory (PinManager.compared w hash e equal).log =
        (pinHistory wf.log).step (.pinCompared hash equal) := pinHistory_concat _ _
    rw [hlog, hstep]
    exact ⟨hi, hix, fun heq => by simp [heq]⟩

/-- After a match the counter may be set back to eight. -/
theorem restored (h : PinInv w) {hash : Block 16} {i : ℕ} (hi : (pinHistory w.log).mem = some i)
    (hix : (pinHistory w.log).installed[i]? = some hash) (h0 : (pinHistory w.log).wrong i = 0) :
    PinInv (w.withPin ⟨some hash, PinManager.kMaxRetries⟩) := by
  refine ⟨h.log, h.fresh, ?_, h.file⟩
  rintro x hx
  obtain rfl : hash = x := Option.some.inj hx
  refine ⟨i, hi, hix, ?_⟩
  change (pinHistory w.log).wrong i + PinManager.kMaxRetries.toNat ≤ 8
  rw [h0]
  decide

/-- A factory reset leaves no PIN in memory, and perhaps none in the file. -/
theorem wiped (h : PinInv w) : PinInv w.wiped := by
  refine h.of_concat rfl h.wrong_le (fun _ _ he => Event.noConfusion he) h.fresh ?_ h.file
  intro hash hh
  cases hh

theorem persisterReset (h : PinInv w) (e : Env) (ok gone : Bool) :
    PinInv (w.persisterReset e ok gone) := by
  have hne : ∀ hash equal, Event.persisterReset ok gone ≠ .pinCompared hash equal :=
    fun _ _ => Event.noConfusion
  cases gone with
  | false => exact (h.emits rfl hne).congr rfl rfl rfl
  | true =>
    refine h.of_concat rfl h.wrong_le (fun x b he => absurd he (hne x b)) h.fresh h.mem ?_
    intro s hs
    cases hs

/-- A new process takes over the file's installation. -/
theorem restart (h : PinInv w) : PinInv w.restart := by
  refine h.of_concat rfl h.wrong_le (fun _ _ he => Event.noConfusion he) h.fresh ?_ h.file
  rcases hf : w.file with _ | s
  · intro hash hh
    simp [World.restart, hf] at hh
  · have hpin : w.restart.store.pin = s.pin := by simp [World.restart, hf]
    rw [hpin]
    exact h.file s hf

/-! ### Every command keeps it -/

theorem credNeutral (D : Device) : CredNeutral D (Frame.invariant PinInv) where
  env w e h := h.congr rfl rfl rfl
  store w s hs h := h.congr hs rfl rfl
  dropNext w h := h.congr rfl rfl rfl
  flushed w m e ok h := h.flushed m e ok
  event w ev hev h := by
    cases ev <;> first | exact hev.elim | exact h.emits rfl fun _ _ => Event.noConfusion
  verify _ _ _ _ _ := Guarantees.of_run fun w => PinManager.run_verify
    (fun _ _ h => h.congr rfl rfl rfl) (fun _ _ h => h.congr rfl rfl rfl)
    (fun _ _ _ _ _ _ _ _ _ h => (h.emits rfl fun _ _ => Event.noConfusion).congr rfl rfl rfl)
    fun _ h => h.congr rfl rfl rfl

theorem pinOps (D : Device) : PinOps D (Frame.invariant PinInv) where
  env w e h := h.congr rfl rfl rfl
  manager w p h := h.congr rfl rfl rfl
  event w ev hev h := by
    cases ev <;> first | exact hev.elim | exact h.emits rfl fun _ _ => Event.noConfusion
  checkPinHash ss enc := by
    refine Guarantees.of_run fun w => PinManager.run_checkPinHash
      (fun _ _ h => h.congr rfl rfl rfl) (fun _ h => h.congr rfl rfl rfl) ?_ ?_ ?_
    · intro hash e hhash hr
      exact ⟨fun h => (h.spent hhash hr).flushed _ _ _,
        fun h => (h.spent hhash hr).congr rfl rfl rfl⟩
    · intro hash e p e' r hhash hr _
      exact ⟨fun h => (h.compared hhash hr e false).1.congr rfl rfl rfl,
        fun h => (h.compared hhash hr e false).1.congr rfl rfl rfl⟩
    · intro hash e hhash hr
      -- a match clears what stands against the PIN, so eight retries fit the budget
      have hrestored : ∀ h : PinInv w, PinInv ((PinManager.compared w hash e true).withPin
          ⟨some hash, PinManager.kMaxRetries⟩) := fun h => by
        obtain ⟨hc, i, hi, hix, h0⟩ := h.compared hhash hr e true
        exact hc.restored hi hix (h0 rfl)
      refine ⟨fun h => (h.compared hhash hr e true).1.congr rfl rfl rfl, fun e' => ⟨?_, ?_⟩⟩
      · refine fun ok h => PinInv.flushed ?_ _ _ _
        exact (hrestored h).congr rfl rfl rfl
      · exact fun h => (hrestored h).congr rfl rfl rfl
  install hash := Guarantees.of_run fun _ => PinManager.run_install fun _ =>
    ⟨fun h => (h.installed hash).flushed _ _ _, fun h => (h.installed hash).flushed _ _ _,
      fun h => (h.installed hash).congr rfl rfl rfl⟩

theorem wipe : Guarantees (Frame.invariant PinInv) Store.wipe :=
  Guarantees.of_run fun _ => Store.run_wipe
    (fun e e' gone h => (h.wiped.persisterReset e true gone).flushed _ e' true)
    (fun e e' gone h => (h.wiped.persisterReset e true gone).flushed _ e' false)
    (fun e gone h => h.wiped.persisterReset e false gone) (fun _ h => h.wiped.congr rfl rfl rfl)
    fun e _ gone h => (h.wiped.persisterReset e true gone).congr rfl rfl rfl

end PinInv

/-- Every run keeps the invariant. -/
theorem PinInv.run (D : Device) (env : Env) (steps : List Step) :
    PinInv ((World.fresh env).run D steps) := by
  have hanswer := ((PinInv.credNeutral D).pieces
    (fun _ _ _ h => h.emits rfl fun _ _ => Event.noConfusion) (fun _ _ h => h.congr rfl rfl rfl)
    ((PinInv.credNeutral D).workOps_of_pinOps PinInv.wipe (PinInv.pinOps D))).answer
  refine World.run_induction (fun w c e h => ?_) (fun w e h => ?_) steps ?_
  · have hbegin : PinInv (w.begin c e) := (h.withEnv e).emits rfl
      fun _ _ => Event.noConfusion
    refine World.call_of_run (((hanswer c).run _).mono ?_ ?_ ?_)
    · exact fun a w' hw' => (hw' hbegin).emits rfl fun _ _ => Event.noConfusion
    · exact fun r w' hw' => (hw' hbegin).emits rfl fun _ _ => Event.noConfusion
    · exact fun w' hw' => (hw' hbegin).restart
  · exact (h.withEnv e).restart
  · refine ⟨⟨fun l hl i => ?_, fun l _ _ hl => ?_⟩, fun _ _ => rfl, ?_, ?_⟩
    · obtain rfl := List.prefix_nil.mp hl
      exact Nat.zero_le _
    · simp [World.fresh] at hl
    · intro hash hh
      cases hh
    · intro s hs
      cases hs

/-- **The PIN brute-force bound.** In every run of a fresh installation, whatever the calls,
the answers of the persister and the points at which the process dies and restarts, no PIN
installation ever has more than eight wrong hashes compared against it since the last
correct one, and once it has eight it is never compared against again. -/
theorem guesses_bounded (D : Device) (env : Env) (steps : List Step) :
    GuessesBounded ((World.fresh env).run D steps).log :=
  (PinInv.run D env steps).log

end Swpasskey
