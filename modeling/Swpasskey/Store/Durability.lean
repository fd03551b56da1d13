import Swpasskey.Store.Mutators

/-!
# Persist before success

`credential.hpp` promises that every mutation flushes before returning, so that a success
means the change is durable. This module says exactly when that holds: in a run of mutators
over a persister that may fail at any call, a success means that the last saved plaintext
is the store in memory (`durable_iff`) unless the call takes one of the two **shortcuts**
that return without a flush, an unchanged serial or a TPM seed that is already there, while
an earlier failed flush has left memory ahead of the file.
-/

namespace Swpasskey.Store

open Proc

/-- The last plaintext saved is that of the store in memory. -/
def Durable (w : World) : Prop := w.lastSaved = some w.store.serialize

instance (w : World) : Decidable (Durable w) := inferInstanceAs (Decidable (_ = _))

/-- A call to one of the store's mutators. -/
inductive Op
  | put (c : Credential)
  | erase (credId : Bytes)
  | updateCountAndUsed (credId : Bytes) (newCount : UInt32) (nowUnix : UInt64)
  | setPin (p : PinState)
  | tpmStateOrCreate
  | clearTpmState
  | setU2fAttestation (a : U2fAttestation)
  | setSerial (serial : Bytes)
  | factoryReset (destroy : Credential → Cmd Status Unit)

namespace Op

/-- What a call does. -/
def exec : Op → Cmd Status Unit
  | put c => Store.put c
  | erase credId => Store.erase credId
  | updateCountAndUsed credId newCount nowUnix => Store.updateCountAndUsed credId newCount nowUnix
  | setPin p => Store.setPin p
  | tpmStateOrCreate => Store.tpmStateOrCreate >>= fun _ => pure ()
  | clearTpmState => Store.clearTpmState
  | setU2fAttestation a => Store.setU2fAttestation a
  | setSerial serial => Store.setSerial serial
  | factoryReset destroy => Store.factoryReset destroy

/-- The call returns success without a flush. -/
def Shortcut (w : World) : Op → Prop
  | setSerial serial => w.store.serial = serial
  | tpmStateOrCreate => w.store.tpm.present = true
  | _ => False

/-- If the call succeeds, the store in memory is durable. -/
def PersistsBeforeSuccess (w : World) (op : Op) : Prop :=
  ∀ w', op.exec w = (.ok (), w') → Durable w'

end Op

/-! ### One call -/

section Call

variable {w : World}

/-- A call that is not a shortcut succeeds only through a successful flush. -/
theorem exec_run_durable {op : Op} (h : ¬ op.Shortcut w) :
    op.exec.Run w (fun _ => Durable) (fun _ _ => True) fun _ => True := by
  cases op with
  | put c =>
    exact run_put (fun _ => trivial) (fun _ _ _ => rfl) (fun _ => trivial) fun _ => trivial
  | erase credId =>
    exact run_erase (fun _ => trivial) (fun _ _ _ => rfl) (fun _ _ _ => trivial)
      fun _ _ _ => trivial
  | updateCountAndUsed credId newCount nowUnix =>
    exact run_updateCountAndUsed trivial (fun _ _ _ => rfl) (fun _ _ _ => trivial)
      fun _ _ _ => trivial
  | setPin p => exact run_setPin (fun _ => rfl) (fun _ => trivial) fun _ => trivial
  | tpmStateOrCreate =>
    refine run_bind.mpr (run_tpmStateOrCreate (fun hp => absurd hp h) (fun _ _ => rfl)
      (fun _ _ _ => trivial) ?_ ?_)
    all_goals exact fun _ _ => trivial
  | clearTpmState =>
    exact run_bind.mpr (run_flush (fun _ => rfl) (fun _ => trivial) fun _ => trivial)
  | setU2fAttestation a =>
    exact run_bind.mpr (run_flush (fun _ => rfl) (fun _ => trivial) fun _ => trivial)
  | setSerial serial =>
    exact run_setSerial (fun hs => absurd hs h) (fun _ _ => rfl) (fun _ => trivial)
      fun _ => trivial
  | factoryReset destroy =>
    rw [Op.exec, Store.factoryReset, run_bind, run_gets, run_bind]
    -- whatever the callbacks did, the wipe ends in a flush
    refine run_onReturn.mpr fun _ w' _ => ?_
    exact run_wipe (fun _ _ _ => rfl) (fun _ _ _ => trivial) (fun _ _ => trivial)
      (fun _ => trivial) fun _ _ _ => trivial

/-- A shortcut succeeds and leaves the world as it is. -/
theorem exec_of_shortcut {op : Op} (h : op.Shortcut w) : op.exec w = (.ok (), w) := by
  cases op with
  | setSerial serial => exact setSerial_of_eq h
  | tpmStateOrCreate => exact bind_apply_ok (tpmStateOrCreate_of_present h)
  | _ => exact h.elim

/-- One call keeps the promise iff it is not a shortcut taken while memory is ahead of the
file. -/
theorem persistsBeforeSuccess_iff (op : Op) :
    op.PersistsBeforeSuccess w ↔ (op.Shortcut w → Durable w) := by
  constructor
  · intro h hs
    exact h w (exec_of_shortcut hs)
  · intro h w' hw'
    by_cases hs : op.Shortcut w
    · rw [exec_of_shortcut hs] at hw'
      obtain rfl : w = w' := congrArg Prod.snd hw'
      exact h hs
    · exact (exec_run_durable hs).ok hw'

end Call

/-! ### Runs -/

/-- `P` holds of every call of a run, at the state the call begins in. -/
def Along (P : World → Op → Prop) : World → List (Op × Env) → Prop
  | _, [] => True
  | w, (op, e) :: ops =>
    P (w.withEnv e) op ∧ Along P (op.exec (w.withEnv e)).2 ops

/-- **Persist before success, exactly.** In a run of mutators from any state, over a
persister that may fail at any call, every success leaves the last saved plaintext equal to
the store in memory iff no call of the run is a shortcut (an unchanged serial, a TPM seed
that is present) made while the last saved plaintext is not that of the store. -/
theorem durable_iff (w : World) (ops : List (Op × Env)) :
    Along (fun w op => op.PersistsBeforeSuccess w) w ops ↔
      Along (fun w op => op.Shortcut w → Durable w) w ops := by
  induction ops generalizing w with
  | nil => exact Iff.rfl
  | cons o ops ih =>
    obtain ⟨op, e⟩ := o
    exact and_congr (persistsBeforeSuccess_iff op) (ih _)

/-- A saved store, then a serial whose flush fails, then the same serial once more: the
second `set_serial` reports a success that is on no disk. -/
theorem not_durable_setSerial :
    let w : World := { env := .calm 0, lastSaved := some ({} : Store).serialize }
    Durable w ∧ ¬ Along (fun w op => op.PersistsBeforeSuccess w) w
      [(.setSerial [1], { Env.calm 0 with save := Stream'.const false }),
        (.setSerial [1], .calm 0)] := by
  refine ⟨rfl, fun h => ?_⟩
  have hsaved := h.2.1 _ (setSerial_of_eq rfl)
  exact absurd hsaved (by decide +kernel)

end Swpasskey.Store
