import Swpasskey.Store.FileStore

/-!
# Saving, system call by system call

`write_atomic` writes a temporary file, syncs it and renames it over the store. Here the call is
the list of system calls it makes, given what the kernel answers: a write may be interrupted, be
short or fail, and the calls after it may fail one by one. The process, or the machine, may stop
after any of them.

What a later reader finds depends on what had reached the disk. A file whose bytes were not
synced may read as anything, and the directory may still have the entry from before the rename.
`saveCalls_atomic` says that the store is then the complete old file or the complete new one.
-/

namespace Swpasskey.FileStore

/-! ### Files and the directory -/

/-- A file: its bytes, and whether they have reached the disk. -/
structure File where
  content : Bytes
  synced : Bool

/-- The two entries of the directory, as a process sees them, and the entry of the store that has
reached the disk. -/
structure Directory where
  path : Option File
  /-- The temporary file; an earlier crash may have left one. -/
  tmp : Option File
  settled : Option File

/-- What a read of the entry may give after a stop; `none` when there is no file. -/
def readsOf : Option File → Set (Option Bytes)
  | none => {none}
  | some f => if f.synced then {some f.content} else {c | c ≠ none}

/-- What a process reads at the store's path. -/
def Directory.seen (d : Directory) : Option Bytes := d.path.map File.content

/-- What a process may find at the store's path when the machine has stopped. -/
def Directory.found (d : Directory) : Set (Option Bytes) :=
  readsOf d.path ∪ readsOf d.settled

/-- The system calls that succeed. -/
inductive Syscall
  /-- `open` of the temporary file with `O_CREAT | O_TRUNC`. -/
  | openTmp
  /-- `write` of these bytes at the end of the temporary file. -/
  | write (b : Bytes)
  | fsync
  | close
  | unlinkTmp
  | rename
  | fsyncDir

/-- What a system call does. -/
def Directory.exec (d : Directory) : Syscall → Directory
  | .openTmp => { d with tmp := some ⟨[], false⟩ }
  | .write b => { d with tmp := d.tmp.map fun f => ⟨f.content ++ b, false⟩ }
  | .fsync => { d with tmp := d.tmp.map fun f => { f with synced := true } }
  | .close => d
  | .unlinkTmp => { d with tmp := none }
  | .rename => { d with path := d.tmp, tmp := none }
  | .fsyncDir => { d with settled := d.path }

/-- What a list of system calls does. -/
def Directory.execAll (d : Directory) (cs : List Syscall) : Directory := cs.foldl Directory.exec d

/-! ### The source functions -/

/-- What the kernel answers to a `write`. -/
inductive WriteAnswer
  | wrote (n : ℕ)
  /-- `EINTR`. -/
  | interrupted
  | failed

/-- What the kernel answers to `write_atomic`. -/
structure WriteAnswers where
  opens : Bool := true
  /-- The answers to the writes; the process stops where they end. -/
  writes : List WriteAnswer
  syncs : Bool := true
  renames : Bool := true
  /-- The temporary file is removed after a failure. -/
  unlinks : Bool := true
  syncsDir : Bool := true

/-- How far a call has come. -/
inductive Progress
  | done | failed | stopped
  deriving DecidableEq

/-- The loop of `write_atomic`, from an offset on. -/
def writeLoop (data : Bytes) (off : ℕ) : List WriteAnswer → List Syscall × Progress
  | [] => ([], if off < data.length then .stopped else .done)
  | a :: as =>
    if off < data.length then
      match a with
      | .wrote n =>
        -- `write` never takes more than it is given
        let b := (data.drop off).take n
        let (cs, r) := writeLoop data (off + b.length) as
        (.write b :: cs, r)
      | .interrupted => writeLoop data off as
      | .failed => ([], .failed)
    else ([], .done)

/-- The way out of a failure: the temporary file is closed and removed. -/
def cleanUp (a : WriteAnswers) : List Syscall := if a.unlinks then [.unlinkTmp] else []

/-- `write_atomic`. -/
def writeAtomic (data : Bytes) (a : WriteAnswers) : List Syscall × Progress :=
  if ¬ a.opens then ([], .failed)
  else
    let (cs, r) := writeLoop data 0 a.writes
    match r with
    | .stopped => (.openTmp :: cs, .stopped)
    | .failed => (.openTmp :: cs ++ .close :: cleanUp a, .failed)
    | .done =>
      if ¬ a.syncs then (.openTmp :: cs ++ .close :: cleanUp a, .failed)
      else if ¬ a.renames then (.openTmp :: cs ++ .fsync :: .close :: cleanUp a, .failed)
      else (.openTmp :: cs ++ .fsync :: .close :: .rename :: if a.syncsDir then [.fsyncDir] else [],
        .done)

/-- `FilePersister::save`: the system calls it makes. -/
def saveCalls (G : Gcm) (p : FilePersister) (plaintext : Bytes) (nonce : Option (Block 12))
    (encrypts : Bool) (a : WriteAnswers) : List Syscall × Progress :=
  match nonce with
  | none => ([], .failed)
  | some nonce =>
    if ¬ encrypts then ([], .failed) else writeAtomic (encodeFile G p nonce plaintext) a

/-! ### The temporary file -/

section Calls

variable {d : Directory} {cs cs' : List Syscall} {data : Bytes}

@[simp] theorem execAll_nil : d.execAll [] = d := rfl

@[simp] theorem execAll_cons (c : Syscall) : d.execAll (c :: cs) = (d.exec c).execAll cs := rfl

theorem execAll_append : d.execAll (cs ++ cs') = (d.execAll cs).execAll cs' := List.foldl_append

/-- The call leaves the store's path alone. -/
def Syscall.Aside : Syscall → Prop
  | rename | fsyncDir => False
  | _ => True

/-- Nothing but the rename and the sync of the directory touches the store. -/
theorem execAll_of_aside (h : ∀ c ∈ cs, c.Aside) :
    (d.execAll cs).path = d.path ∧ (d.execAll cs).settled = d.settled := by
  induction cs generalizing d with
  | nil => exact ⟨rfl, rfl⟩
  | cons c cs ih =>
    have hc : (d.exec c).path = d.path ∧ (d.exec c).settled = d.settled := by
      have haside := h c List.mem_cons_self
      cases c with
      | rename => exact haside.elim
      | fsyncDir => exact haside.elim
      | _ => exact ⟨rfl, rfl⟩
    obtain ⟨hpath, hsettled⟩ := ih (d := d.exec c) fun c' hc' => h c' (List.mem_cons_of_mem c hc')
    exact ⟨hpath.trans hc.1, hsettled.trans hc.2⟩

theorem found_of_aside (h : ∀ c ∈ cs, c.Aside) : (d.execAll cs).found = d.found := by
  obtain ⟨hpath, hsettled⟩ := execAll_of_aside (d := d) h
  rw [Directory.found, hpath, hsettled, Directory.found]

theorem aside_writeLoop (data : Bytes) (off : ℕ) (as : List WriteAnswer) :
    ∀ c ∈ (writeLoop data off as).1, c.Aside := by
  induction as generalizing off with
  | nil => exact fun c hc => by cases hc
  | cons a as ih =>
    unfold writeLoop
    split_ifs with hoff
    · cases a with
      | wrote n =>
        intro c hc
        rcases List.mem_cons.mp hc with rfl | hc
        · trivial
        · exact ih _ c hc
      | interrupted => exact ih off
      | failed => exact fun c hc => by cases hc
    · exact fun c hc => by cases hc

/-- The loop appends the rest of the data, however the kernel cuts it up. -/
theorem tmp_writeLoop {off : ℕ} {as : List WriteAnswer} (hoff : off ≤ data.length) {b : Bool}
    (htmp : d.tmp = some ⟨data.take off, b⟩) (hdone : (writeLoop data off as).2 = .done) :
    ∃ b, (d.execAll (writeLoop data off as).1).tmp = some ⟨data, b⟩ := by
  induction as generalizing off d b with
  | nil =>
    simp only [writeLoop] at hdone ⊢
    split_ifs at hdone with hlt
    have hall : data.take off = data := List.take_of_length_le (by omega)
    exact ⟨b, by rw [execAll_nil, htmp, hall]⟩
  | cons a as ih =>
    unfold writeLoop at hdone ⊢
    split_ifs at hdone ⊢ with hlt
    · cases a with
      | wrote n =>
        have hlen : off + ((data.drop off).take n).length ≤ data.length := by
          simp only [List.length_take, List.length_drop]
          omega
        refine ih hlen (b := false) ?_ hdone
        -- what was written so far, and the bytes that follow
        have hnext : data.take off ++ (data.drop off).take n =
            data.take (off + ((data.drop off).take n).length) := by
          rw [List.take_add, List.length_take, ← List.take_eq_take_min]
        simp only [Directory.exec, htmp, Option.map_some, hnext]
      | interrupted => exact ih hoff htmp hdone
      | failed => cases hdone
    · have hall : data.take off = data := List.take_of_length_le (by omega)
      exact ⟨b, by rw [execAll_nil, htmp, hall]⟩

/-! ### The rename -/

theorem aside_cleanUp (a : WriteAnswers) : ∀ c ∈ cleanUp a, c.Aside := by
  unfold cleanUp
  split_ifs
  · simp [Syscall.Aside]
  · simp

/-- **The shape of `write_atomic`.** Either nothing it does touches the store; or the data is
written and synced, and then renamed over the store. -/
theorem writeAtomic_cases (data : Bytes) (a : WriteAnswers) :
    ((∀ c ∈ (writeAtomic data a).1, c.Aside) ∧ (writeAtomic data a).2 ≠ .done) ∨
      ∃ cs tail, (∀ c ∈ cs, c.Aside) ∧ (tail = [] ∨ tail = [.fsyncDir]) ∧
        writeAtomic data a = (cs ++ .rename :: tail, .done) ∧
        ∀ d : Directory, (d.execAll cs).tmp = some ⟨data, true⟩ := by
  have hloop := aside_writeLoop data 0 a.writes
  have htmp : ∀ d : Directory, (writeLoop data 0 a.writes).2 = .done →
      ∃ b, ((d.exec .openTmp).execAll (writeLoop data 0 a.writes).1).tmp = some ⟨data, b⟩ :=
    fun d hdone => tmp_writeLoop (Nat.zero_le _) (b := false) rfl hdone
  obtain ⟨cs, r, hcs⟩ : ∃ cs r, writeLoop data 0 a.writes = (cs, r) := ⟨_, _, rfl⟩
  rw [hcs] at hloop htmp
  -- the calls before a failure
  have haside : ∀ l : List Syscall, (∀ c ∈ l, c.Aside) → ∀ c ∈ .openTmp :: cs ++ l, c.Aside := by
    intro l hl c hc
    rcases List.mem_append.mp hc with hc | hc
    · rcases List.mem_cons.mp hc with rfl | hc
      · trivial
      · exact hloop c hc
    · exact hl c hc
  have hclose : ∀ c ∈ .close :: cleanUp a, c.Aside :=
    List.forall_mem_cons.mpr ⟨trivial, aside_cleanUp a⟩
  unfold writeAtomic
  rw [hcs]
  by_cases hopens : a.opens = true
  · rw [if_neg (not_not.mpr hopens)]
    cases r with
    | stopped => exact .inl ⟨by simpa using haside [] (by simp), by simp⟩
    | failed => exact .inl ⟨haside _ hclose, by simp⟩
    | done =>
      by_cases hsyncs : a.syncs = true
      · by_cases hrenames : a.renames = true
        · right
          refine ⟨.openTmp :: cs ++ [.fsync, .close], if a.syncsDir then [.fsyncDir] else [],
            haside _ (by simp [Syscall.Aside]), ?_, by simp [hsyncs, hrenames], fun d => ?_⟩
          · split_ifs
            · exact .inr rfl
            · exact .inl rfl
          · obtain ⟨b, hb⟩ := htmp d rfl
            rw [execAll_append, execAll_cons, execAll_cons, execAll_cons, execAll_nil]
            change (((d.exec .openTmp).execAll cs).tmp.map fun f => { f with synced := true }) = _
            rw [hb, Option.map_some]
        · left
          simp only [hsyncs, hrenames, not_true_eq_false, if_false]
          exact ⟨haside _ (List.forall_mem_cons.mpr ⟨trivial, hclose⟩), by simp⟩
      · left
        simp only [hsyncs]
        exact ⟨haside _ hclose, by simp⟩
  · rw [if_pos hopens]
    exact .inl ⟨by simp, by simp⟩

/-- A later process finds what it may have found in `d`, or the data. -/
def Directory.Replaces (d : Directory) (data : Bytes) (d' : Directory) : Prop :=
  d'.seen ∈ ({d.seen, some data} : Set (Option Bytes)) ∧ d'.found ⊆ insert (some data) d.found

theorem replaces_of_aside (h : ∀ c ∈ cs, c.Aside) : d.Replaces data (d.execAll cs) := by
  obtain ⟨hpath, -⟩ := execAll_of_aside (d := d) h
  constructor
  · exact .inl (congrArg (Option.map File.content) hpath)
  · rw [found_of_aside h]
    exact Set.subset_insert _ _

theorem replaces_of_rename {tail : List Syscall} (haside : ∀ c ∈ cs, c.Aside)
    (htail : tail = [] ∨ tail = [.fsyncDir]) (htmp : (d.execAll cs).tmp = some ⟨data, true⟩) :
    d.Replaces data (d.execAll (cs ++ .rename :: tail)) := by
  obtain ⟨-, hsettled⟩ := execAll_of_aside (d := d) haside
  have hnew : readsOf (some ⟨data, true⟩) = {some data} := rfl
  rw [execAll_append, execAll_cons]
  rcases htail with rfl | rfl
  · constructor
    · simp [Directory.seen, Directory.exec, htmp]
    · simp only [Directory.exec, execAll_nil, Directory.found, htmp, hsettled, hnew]
      exact Set.insert_subset_insert Set.subset_union_right
  · constructor
    · simp [Directory.seen, Directory.exec, htmp]
    · simp only [Directory.exec, execAll_cons, execAll_nil, Directory.found, htmp, hnew]
      exact Set.union_subset (by simp) (by simp)

/-- A stop at any point of `write_atomic`. -/
theorem replaces_writeAtomic (data : Bytes) (a : WriteAnswers) (d : Directory) (n : ℕ) :
    d.Replaces data (d.execAll ((writeAtomic data a).1.take n)) := by
  rcases writeAtomic_cases data a with ⟨haside, -⟩ | ⟨cs, tail, haside, htail, hcalls, htmp⟩
  · exact replaces_of_aside fun c hc => haside c (List.mem_of_mem_take hc)
  · rw [hcalls]
    rcases Nat.lt_or_ge cs.length n with hn | hn
    · -- the rename is among the calls made
      have htake : (cs ++ .rename :: tail).take n =
          cs ++ .rename :: tail.take (n - cs.length - 1) := by
        have hpos : n - cs.length = n - cs.length - 1 + 1 := by omega
        rw [List.take_append, List.take_of_length_le hn.le, hpos, List.take_succ_cons,
          Nat.add_sub_cancel]
      rw [htake]
      refine replaces_of_rename haside ?_ (htmp d)
      rcases htail with rfl | rfl
      · exact .inl (by simp)
      · rcases Nat.eq_zero_or_pos (n - cs.length - 1) with hzero | hpos
        · exact .inl (by rw [hzero]; rfl)
        · exact .inr (List.take_of_length_le hpos)
    · rw [List.take_append_of_le_length hn]
      exact replaces_of_aside fun c hc => haside c (List.mem_of_mem_take hc)

end Calls

/-! ### Saving -/

section Saving

variable (G : Gcm) (p : FilePersister) (plaintext : Bytes) (nonce : Option (Block 12))
  (encrypts : Bool) (a : WriteAnswers) (d : Directory)

/-- The directory when a save has stopped after so many of its system calls. -/
def stopped (n : ℕ) : Directory :=
  d.execAll ((saveCalls G p plaintext nonce encrypts a).1.take n)

/-- The complete new envelope, once there is a nonce for it. -/
def newContent : Set (Option Bytes) := {c | ∃ x ∈ nonce, c = some (encodeFile G p x plaintext)}

/-- **Saving is crash-atomic.** Wherever the process stops in a save, and whatever fails in it,
what is then read at the path is the complete old content (or no file, if there was none) or the
complete new envelope, whatever an earlier crash has left in the temporary file. When it is the
machine that stops, this holds of everything that may be found on the disk. -/
theorem saveCalls_atomic (n : ℕ) :
    (stopped G p plaintext nonce encrypts a d n).seen ∈
        insert d.seen (newContent G p plaintext nonce) ∧
      (stopped G p plaintext nonce encrypts a d n).found ⊆
        d.found ∪ newContent G p plaintext nonce := by
  set d' := stopped G p plaintext nonce encrypts a d n
  set new := newContent G p plaintext nonce
  -- without a nonce or a ciphertext there are no calls
  have hnone : d' = d → d'.seen ∈ insert d.seen new ∧ d'.found ⊆ d.found ∪ new := by
    intro hd
    rw [hd]
    exact ⟨Set.mem_insert _ _, Set.subset_union_left⟩
  rcases nonce with _ | x
  · exact hnone (congrArg d.execAll List.take_nil)
  by_cases hencrypts : encrypts = true
  · have hcalls : saveCalls G p plaintext (some x) encrypts a =
        writeAtomic (encodeFile G p x plaintext) a := if_neg (not_not.mpr hencrypts)
    have hreplaces := replaces_writeAtomic (encodeFile G p x plaintext) a d n
    rw [← hcalls] at hreplaces
    have hx : some (encodeFile G p x plaintext) ∈ new := ⟨x, rfl, rfl⟩
    constructor
    · rcases hreplaces.1 with hold | hnew
      · exact .inl hold
      · exact .inr (hnew ▸ hx)
    · exact hreplaces.2.trans (Set.insert_subset (.inr hx) Set.subset_union_left)
  · have hcalls : saveCalls G p plaintext (some x) encrypts a = ([], .failed) := if_pos hencrypts
    refine hnone ?_
    change d.execAll ((saveCalls G p plaintext (some x) encrypts a).1.take n) = d
    rw [hcalls, List.take_nil, execAll_nil]

/-- A save does what `save` says, by the answer of `write_atomic`. -/
theorem save_eq_saveCalls (disk : Disk) (hfile : disk.file = d.seen) :
    let out := saveCalls G p plaintext nonce encrypts a
    save G p plaintext ⟨nonce, encrypts, out.2 = .done⟩ disk =
      (decide (out.2 = .done), { disk with file := (d.execAll out.1).seen }) := by
  intro out
  have hsame : ({ disk with file := d.seen } : Disk) = disk := by
    rw [← hfile]
  rcases nonce with _ | x
  · exact Prod.ext rfl hsame.symm
  by_cases hencrypts : encrypts = true
  · have hout : out = writeAtomic (encodeFile G p x plaintext) a := if_neg (not_not.mpr hencrypts)
    rw [hout, save]
    dsimp only
    rw [if_neg (not_not.mpr hencrypts)]
    -- the rename is made or not; what comes after it does not touch the path
    rcases writeAtomic_cases (encodeFile G p x plaintext) a with
      ⟨haside, hdone⟩ | ⟨cs, tail, haside, htail, hcalls, htmp⟩
    · rw [Directory.seen, (execAll_of_aside haside).1, ← Directory.seen, hsame]
      simp [hdone]
    · have hpath : (d.execAll (cs ++ .rename :: tail)).seen =
          some (encodeFile G p x plaintext) := by
        rw [Directory.seen, execAll_append, execAll_cons]
        rcases htail with rfl | rfl
        · exact congrArg (Option.map File.content) (htmp d)
        · exact congrArg (Option.map File.content) (htmp d)
      rw [hcalls, hpath]
      simp
  · have hout : out = ([], .failed) := if_pos hencrypts
    rw [hout, save]
    dsimp only
    rw [if_pos hencrypts, execAll_nil, hsame]
    rfl

end Saving

end Swpasskey.FileStore
