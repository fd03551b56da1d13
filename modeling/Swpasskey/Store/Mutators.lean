import Swpasskey.World

/-!
# The store's mutators

The operations of `CredentialStore` that change it. Each changes memory first and then
flushes; `put` and `erase` roll memory back when the flush fails, the others leave it
changed.
-/

namespace Swpasskey.Store

open Proc

/-- Change the store in memory. -/
def update (f : Store → Store) : Cmd Status Unit := modify fun w => { w with store := f w.store }

/-- The world with what a successful save leaves behind. -/
def saved (w : World) : World :=
  { w with lastSaved := some w.store.serialize, file := some w.store.reopened }

/-- `flush_locked`, on behalf of one of the mutators. -/
def flush (by_ : Mutator) : Cmd Status Unit := do
  let ok ← askSave
  emit (.flushed by_ ok)
  if ok then modify saved else throw .other

/-- Replace the first row with the new row's id. -/
def replaceFirst (c : Credential) : List Credential → List Credential
  | [] => []
  | e :: l => if e.credId = c.credId then c :: l else e :: replaceFirst c l

/-- The rows after a `put`: the row with the same id is replaced, or the new one
appended. -/
def putRows (c : Credential) (l : List Credential) : List Credential :=
  if l.any fun e => e.credId = c.credId then replaceFirst c l else l ++ [c]

/-- `put` finds no room: a new id, and the table is full. -/
def full (s : Store) (c : Credential) : Bool :=
  !(s.creds.any fun e => e.credId = c.credId) && kMaxCredentials ≤ s.creds.length

/-- The rows after the rollback of a `put`: the row that was replaced is written back over the
new one, or the new one is popped from the end. -/
def unputRows (old : Option Credential) (l : List Credential) : List Credential :=
  match old with
  | some old => replaceFirst old l
  | none => l.dropLast

/-- `put`. -/
def put (c : Credential) : Cmd Status Unit := do
  ofExcept (validate c)
  let s ← gets World.store
  require (!s.full c) .keyStoreFull
  let old := s.creds.find? fun e => e.credId = c.credId
  update fun s => { s with creds := putRows c s.creds }
  match ← (flush .put).attempt with
  | .ok () => pure ()
  | .error e => do
    update fun s => { s with creds := unputRows old s.creds }  -- roll back
    throw e

/-- `update_count_and_used`. -/
def updateCountAndUsed (credId : Bytes) (newCount : UInt32) (nowUnix : UInt64) :
    Cmd Status Unit := do
  let s ← gets World.store
  match s.findById credId with
  | none => throw .invalidCredential
  | some c =>
    update fun s => { s with creds := replaceFirst (c.used newCount nowUnix) s.creds }
    flush .updateCountAndUsed

/-- The rows without the first one with this id. -/
def eraseRows (credId : Bytes) (l : List Credential) : List Credential :=
  l.eraseP fun c => c.credId.bytes == credId

/-- `erase`. On a failed flush the row is put back **at the end**. -/
def erase (credId : Bytes) : Cmd Status Unit := do
  let s ← gets World.store
  match s.findById credId with
  | none => throw .invalidCredential
  | some removed =>
    update fun s => { s with creds := eraseRows credId s.creds }
    match ← (flush .erase).attempt with
    | .ok () => pure ()
    | .error e => do
      update fun s => { s with creds := s.creds ++ [removed] }
      throw e

/-- The persister's part of `factory_reset`: the old file goes, then the empty store is
saved. -/
def resetFile : Cmd Status Unit := do
  let (ok, wiped) ← askReset
  emit (.persisterReset ok wiped)
  modify fun w => { w with file := if wiped then none else w.file }
  require ok .other
  flush .factoryReset

/-- `factory_reset` after its callbacks: memory is wiped before the persister is asked. -/
def wipe : Cmd Status Unit := do
  update fun s => { s with creds := [], pin := {}, tpm := {}, u2f := none }
  emit .pinWiped
  resetFile

/-- `factory_reset`: `destroy` is called on every row first. -/
def factoryReset (destroy : Credential → Cmd Status Unit) : Cmd Status Unit := do
  let s ← gets World.store
  forEach destroy s.creds
  wipe

/-- `set_pin`. -/
def setPin (p : PinState) : Cmd Status Unit := do
  update fun s => { s with pin := p }
  flush .setPin

/-- `tpm_state_or_create`: an existing seed is returned as it is. -/
def tpmStateOrCreate : Cmd Status TpmState := do
  let s ← gets World.store
  if s.tpm.present then return s.tpm
  else
    let seed ← random 32
    update fun s => { s with tpm := { s.tpm with srkUniqueSeed := seed } }
    let auth ← random 32
    update fun s => { s with tpm := { s.tpm with objectAuth := auth, present := true } }
    flush .tpmStateOrCreate
    gets fun w => w.store.tpm

/-- `clear_tpm_state`. -/
def clearTpmState : Cmd Status Unit := do
  update fun s => { s with tpm := {} }
  flush .clearTpmState

/-- `set_u2f_attestation`. -/
def setU2fAttestation (a : U2fAttestation) : Cmd Status Unit := do
  update fun s => { s with u2f := some a }
  flush .setU2fAttestation

/-- `set_serial`: an unchanged serial is not written. -/
def setSerial (serial : Bytes) : Cmd Status Unit := do
  let s ← gets World.store
  if s.serial = serial then return ()
  else
    update fun s => { s with serial := serial }
    flush .setSerial

end Swpasskey.Store

/-! ### What each mutator can do

One rule for each mutator, in the form of a triple: the caller shows its postcondition at
every state the mutator can end in. -/

namespace Swpasskey

namespace World

/-- The world with other rows in memory. -/
def withCreds (w : World) (l : List Credential) : World :=
  { w with store := { w.store with creds := l } }

/-- The world with another PIN in memory. -/
def withPin (w : World) (p : PinState) : World := { w with store := { w.store with pin := p } }

/-- The world with other TPM seeds in memory. -/
def withTpm (w : World) (t : TpmState) : World := { w with store := { w.store with tpm := t } }

/-- A save with the given outcome, as the log and the file see it. -/
def flushed (w : World) (m : Mutator) (e : Env) (ok : Bool) : World :=
  if ok then Store.saved ((w.withEnv e).emits [.flushed m true])
  else (w.withEnv e).emits [.flushed m false]

/-- The world after the memory of a factory reset is wiped. -/
def wiped (w : World) : World :=
  { w with store := { w.store with creds := [], pin := {}, tpm := {}, u2f := none } }.emits
    [.pinWiped]

/-- The world after the persister was asked to reset. -/
def persisterReset (w : World) (e : Env) (ok gone : Bool) : World :=
  { (w.withEnv e).emits [.persisterReset ok gone] with file := if gone then none else w.file }

end World

namespace Store

open Proc

variable {w : World} {E : Status → World → Prop} {C : World → Prop}

theorem run_update {f : Store → Store} {Q : Unit → World → Prop} :
    (update f).Run w Q E C ↔ Q () { w with store := f w.store } := Iff.rfl

theorem run_flush {m : Mutator} {Q : Unit → World → Prop} (hok : ∀ e, Q () (w.flushed m e true))
    (herr : ∀ e, E .other (w.flushed m e false)) (hC : ∀ e, C (w.withEnv e)) :
    (flush m).Run w Q E C := by
  refine run_bind.mpr (run_ask (fun ok e => ?_) hC)
  cases ok
  · exact herr e
  · exact hok e

/-- What a flush does, by the answer of the persister. -/
theorem flush_apply (m : Mutator) (h : w.env.crash ≠ some 0) :
    flush m w = (if w.env.save.head then .ok () else .err .other,
      w.flushed m w.env.afterSave w.env.save.head) := by
  refine (bind_apply_ok (ask_apply _ h) : flush m w = _).trans ?_
  change _ = (if w.env.ticked.save.head then _ else _,
    World.flushed w m { w.env.ticked with save := w.env.ticked.save.tail } w.env.ticked.save.head)
  rcases w.env.ticked.save.head with _ | _ <;> rfl

theorem flush_died (m : Mutator) (h : w.env.crash = some 0) : flush m w = (.died, w) :=
  bind_apply_died (ask_died _ h)

theorem replaceFirst_replaceFirst {c old : Credential} {l : List Credential}
    (h : l.find? (fun e => e.credId = c.credId) = some old) :
    replaceFirst old (replaceFirst c l) = l := by
  have hid : old.credId = c.credId := by simpa using List.find?_some h
  induction l with
  | nil => cases h
  | cons e l ih =>
    rw [replaceFirst]
    rw [List.find?_cons] at h
    split_ifs with he
    · simp only [he, decide_true, Option.some.injEq] at h
      rw [replaceFirst, if_pos hid.symm, h]
    · simp only [he, decide_false] at h
      rw [replaceFirst, if_neg (fun heq => he (heq.trans hid)), ih h]

/-- The rollback of `put` undoes it, in either branch. -/
theorem unputRows_putRows (c : Credential) (l : List Credential) :
    unputRows (l.find? fun e => e.credId = c.credId) (putRows c l) = l := by
  unfold putRows
  generalize h : l.find? (fun e => e.credId = c.credId) = old
  rcases old with _ | old
  · have hany : ¬ (l.any fun e => e.credId = c.credId) = true := by
      simpa using List.find?_eq_none.mp h
    rw [if_neg hany, unputRows, List.dropLast_concat]
  · have hany : (l.any fun e => e.credId = c.credId) = true := by
      rw [List.any_eq_true]
      exact ⟨old, List.mem_of_find?_eq_some h, by simpa using List.find?_some h⟩
    rw [if_pos hany]
    exact replaceFirst_replaceFirst h

/-- `put` refuses the row, stores it, or fails and leaves the rows as they were. -/
theorem run_put {c : Credential} {Q : Unit → World → Prop} (hrefuse : ∀ e, E e w)
    (hok : ∀ e, validate c = .ok () → w.store.full c = false →
      Q () ((w.withCreds (putRows c w.store.creds)).flushed .put e true))
    (herr : ∀ e, E .other (w.flushed .put e false))
    (hC : ∀ e, C ((w.withCreds (putRows c w.store.creds)).withEnv e)) :
    (put c).Run w Q E C := by
  rw [put, run_bind, run_ofExcept]
  refine ⟨fun _ hv => ?_, fun e _ => hrefuse e⟩
  rw [run_bind, run_gets, run_bind, run_require]
  refine ⟨fun hfull => ?_, fun _ => hrefuse _⟩
  rw [run_bind, run_update, run_bind, run_attempt]
  refine run_flush (fun e => hok e hv (by simpa using hfull)) (fun e => ?_) hC
  change E .other ((w.flushed .put e false).withCreds
    (unputRows (w.store.creds.find? fun e => e.credId = c.credId) (putRows c w.store.creds)))
  rw [unputRows_putRows]
  exact herr e

/-- `update_count_and_used` finds no row, or changes memory and then flushes. -/
theorem run_updateCountAndUsed {credId : Bytes} {n : UInt32} {t : UInt64}
    {Q : Unit → World → Prop} (hnone : E .invalidCredential w)
    (hok : ∀ c e, w.store.findById credId = some c →
      Q () ((w.withCreds (replaceFirst (c.used n t) w.store.creds)).flushed .updateCountAndUsed
        e true))
    (herr : ∀ c e, w.store.findById credId = some c →
      E .other ((w.withCreds (replaceFirst (c.used n t) w.store.creds)).flushed
        .updateCountAndUsed e false))
    (hC : ∀ c e, w.store.findById credId = some c →
      C ((w.withCreds (replaceFirst (c.used n t) w.store.creds)).withEnv e)) :
    (updateCountAndUsed credId n t).Run w Q E C := by
  rw [updateCountAndUsed, run_bind, run_gets]
  rcases hc : w.store.findById credId with _ | c
  · exact hnone
  · exact run_flush (fun e => hok c e hc) (fun e => herr c e hc) fun e => hC c e hc

/-- `erase` finds no row, removes it, or fails and puts it back at the end. -/
theorem run_erase {credId : Bytes} {Q : Unit → World → Prop}
    (hnone : w.store.findById credId = none → E .invalidCredential w)
    (hok : ∀ c e, w.store.findById credId = some c →
      Q () ((w.withCreds (eraseRows credId w.store.creds)).flushed .erase e true))
    (herr : ∀ c e, w.store.findById credId = some c →
      E .other ((w.withCreds (eraseRows credId w.store.creds ++ [c])).flushed .erase e false))
    (hC : ∀ c e, w.store.findById credId = some c →
      C ((w.withCreds (eraseRows credId w.store.creds)).withEnv e)) :
    (erase credId).Run w Q E C := by
  rw [erase, run_bind, run_gets]
  rcases hc : w.store.findById credId with _ | c
  · exact hnone hc
  · rw [run_bind, run_update, run_bind, run_attempt]
    exact run_flush (fun e => hok c e hc) (fun e => herr c e hc) fun e => hC c e hc

theorem run_setPin {p : PinState} {Q : Unit → World → Prop}
    (hok : ∀ e, Q () ((w.withPin p).flushed .setPin e true))
    (herr : ∀ e, E .other ((w.withPin p).flushed .setPin e false))
    (hC : ∀ e, C ((w.withPin p).withEnv e)) : (setPin p).Run w Q E C :=
  run_bind.mpr (run_flush hok herr hC)

/-- `factory_reset` after its callbacks: memory is wiped whatever the persister answers. -/
theorem run_wipe {Q : Unit → World → Prop}
    (hok : ∀ e e' gone, Q () ((w.wiped.persisterReset e true gone).flushed .factoryReset e' true))
    (herr : ∀ e e' gone,
      E .other ((w.wiped.persisterReset e true gone).flushed .factoryReset e' false))
    (hreset : ∀ e gone, E .other (w.wiped.persisterReset e false gone))
    (hC : ∀ e, C (w.wiped.withEnv e))
    (hC' : ∀ e e' gone, C ((w.wiped.persisterReset e true gone).withEnv e')) :
    wipe.Run w Q E C := by
  rw [wipe, run_bind, run_update, run_bind, run_emit, resetFile]
  refine run_bind.mpr (run_ask (fun answer e => ?_) hC)
  obtain ⟨_ | _, gone⟩ := answer
  · exact hreset e gone
  · exact run_flush (fun e' => hok e e' gone) (fun e' => herr e e' gone) fun e' => hC' e e' gone

/-- What the wipe does, by the answers of the persister. -/
theorem wipe_apply (h : w.env.crash ≠ some 0) :
    wipe w = if w.env.reset.head.1 then
        flush .factoryReset (w.wiped.persisterReset w.env.afterReset true w.env.reset.head.2)
      else (.err .other, w.wiped.persisterReset w.env.afterReset false w.env.reset.head.2) := by
  have hwipe : wipe w = resetFile w.wiped := rfl
  rw [hwipe]
  refine (bind_apply_ok (ask_apply _ (w := w.wiped) h) : resetFile w.wiped = _).trans ?_
  change _ = if w.env.ticked.reset.head.1 then
      flush .factoryReset (w.wiped.persisterReset
        { w.env.ticked with reset := w.env.ticked.reset.tail }
        true w.env.ticked.reset.head.2)
    else (.err .other, w.wiped.persisterReset { w.env.ticked with reset := w.env.ticked.reset.tail }
      false w.env.ticked.reset.head.2)
  have hticked : w.wiped.env.ticked = w.env.ticked := rfl
  rw [hticked]
  rcases w.env.ticked.reset.head with ⟨_ | _, gone⟩ <;> rfl

theorem wipe_died (h : w.env.crash = some 0) : wipe w = (.died, w.wiped) :=
  (bind_apply_died (ask_died _ (w := w.wiped) h) : resetFile w.wiped = _)

/-- `tpm_state_or_create` returns the seed there is, or draws one and flushes. -/
theorem run_tpmStateOrCreate {Q : TpmState → World → Prop}
    (hpresent : w.store.tpm.present = true → Q w.store.tpm w)
    (hok : ∀ t e, Q t ((w.withTpm t).flushed .tpmStateOrCreate e true))
    (hrandom : ∀ r t e, E r ((w.withTpm t).withEnv e))
    (herr : ∀ t e, E .other ((w.withTpm t).flushed .tpmStateOrCreate e false))
    (hC : ∀ t e, C ((w.withTpm t).withEnv e)) : tpmStateOrCreate.Run w Q E C := by
  rw [tpmStateOrCreate, run_bind, run_gets]
  split_ifs with h
  · exact hpresent h
  · rw [run_bind]
    refine (quiet_random 32).run_of (fun seed e => ?_) (fun _ => hrandom _ w.store.tpm)
      (hC w.store.tpm)
    rw [run_bind, run_update, run_bind]
    refine (quiet_random 32).run_of (fun auth e' => ?_) (fun _ => hrandom _ _) (hC _)
    rw [run_bind, run_update, run_bind]
    exact run_flush (hok _) (herr _) (hC _)

theorem tpmStateOrCreate_of_present (h : w.store.tpm.present = true) :
    tpmStateOrCreate w = (.ok w.store.tpm, w) := by
  rw [tpmStateOrCreate, bind_apply_ok (gets_apply _ _), if_pos h, pure_apply]

/-- `set_serial` leaves an unchanged serial alone, or flushes the new one. -/
theorem run_setSerial {serial : Bytes} {Q : Unit → World → Prop}
    (hsame : w.store.serial = serial → Q () w)
    (hok : ∀ e, w.store.serial ≠ serial →
      Q () ({ w with store := { w.store with serial := serial } }.flushed .setSerial e true))
    (herr : ∀ e, E .other ({ w with store := { w.store with serial := serial } }.flushed .setSerial
      e false))
    (hC : ∀ e, C ({ w with store := { w.store with serial := serial } }.withEnv e)) :
    (setSerial serial).Run w Q E C := by
  rw [setSerial, run_bind, run_gets]
  split_ifs with h
  · exact hsame h
  · exact run_bind.mpr (run_flush (fun e => hok e h) herr hC)

theorem setSerial_of_eq {serial : Bytes} (h : w.store.serial = serial) :
    setSerial serial w = (.ok (), w) := by
  rw [setSerial, bind_apply_ok (gets_apply _ _), if_pos h, pure_apply]

end Store

end Swpasskey
