import Swpasskey.Ctap.Frames

/-!
# The answers still to come

A command takes the answers of its environment from the front, one at a time, so what is
left when it ends are the answers it began with **from some point on** (`Env.Later`). What
holds of all answers of a call therefore holds of each one that the command gets, however
deep inside. `AskOps R` walks through the commands over a frame that admits requests, in
the manner of the frames in `Ctap/Frames.lean`; those admit any other environment and so
say nothing about it.
-/

namespace Swpasskey

open Proc

variable {D : Device} {R : Frame World}

/-- A frame that admits requests, and all that leaves the environment and the pending list
alone. -/
structure AskOps (R : Frame World) : Prop where
  env : ∀ (w : World) e, w.env.Later e → R.rel w (w.withEnv e)
  rest : ∀ w w' : World, w'.env = w.env → w'.next = w.next → R.rel w w'

/-- The frame of a command that leaves the pending list alone: some answers are taken. -/
def onward : Frame World :=
  Frame.ofRel (fun w w' => w.env.Later w'.env ∧ w'.next = w.next)
    (fun w => ⟨.refl w.env, rfl⟩) fun h h' => ⟨h.1.trans h'.1, h'.2.trans h.2⟩

theorem onward_askOps : AskOps onward where
  env _ _ he := ⟨he, rfl⟩
  rest _ _ henv hnext := ⟨henv ▸ .refl _, hnext⟩

namespace AskOps

variable (h : AskOps R)

include h

theorem quiet {ε α : Type} {m : Cmd ε α} (hm : Quiet m) : Guarantees R m :=
  hm.mono (fun w _ ⟨e, he, hw⟩ => hw ▸ h.env w e he)
    fun w _ ⟨e, he, hw⟩ => R.lost_of_rel (hw ▸ h.env w e he)

theorem emit {ε : Type} (ev : Event) : Guarantees R (emit ev : Cmd ε Unit) :=
  Guarantees.modify fun w => h.rest w _ rfl rfl

theorem update (f : PinManager → PinManager) : Guarantees R (PinManager.update f) :=
  Guarantees.modify fun w => h.rest w _ rfl rfl

theorem updateStore (f : Store → Store) : Guarantees R (Store.update f) :=
  Guarantees.modify fun w => h.rest w _ rfl rfl

theorem flush (m : Mutator) : Guarantees R (Store.flush m) := by
  refine (h.quiet (quiet_ask _)).bind fun ok => (h.emit _).bind fun _ => ?_
  exact Guarantees.ite (Guarantees.modify fun w => h.rest w _ rfl rfl) (Guarantees.throw _)

theorem updateCountAndUsed (credId : Bytes) (n : UInt32) (t : UInt64) :
    Guarantees R (Store.updateCountAndUsed credId n t) := by
  refine (Guarantees.gets _).bind fun s => ?_
  rcases s.findById credId with _ | c
  · exact Guarantees.throw _
  · exact (h.updateStore _).bind fun _ => h.flush _

theorem confirmUp {ε : Type} (kind : PresenceKind) (rpId display : Bytes) (rpIdHash : Block 32) :
    Guarantees R (confirmUp kind rpId display rpIdHash : Cmd ε Decision) := by
  refine (h.quiet (quiet_ask _)).bind fun c => Guarantees.ite (Guarantees.pure _) ?_
  exact (h.quiet (quiet_ask _)).bind fun d => (h.emit _).bind fun _ => Guarantees.pure _

theorem verify (param : Bytes) (protocol : UInt64) (clientDataHash : Block 32) (permission : UInt8)
    (rpId : Bytes) :
    Guarantees R (PinManager.verify D param protocol clientDataHash permission rpId) := by
  refine (Guarantees.require _ _).bind fun _ => (Guarantees.gets _).bind fun t => ?_
  rcases t with _ | t
  · exact Guarantees.throw _
  refine (h.quiet (quiet_ask _)).bind fun now => Guarantees.ite ?_ ?_
  · exact (h.update _).bind fun _ => Guarantees.throw _
  refine ((h.quiet (quiet_hmacSha256 _ _)).orFail _).bind fun mac => ?_
  refine (Guarantees.require _ _).bind fun _ => (Guarantees.require _ _).bind fun _ => ?_
  refine (Guarantees.require _ _).bind fun _ => (h.quiet (quiet_ask _)).bind fun touched => ?_
  exact (h.update _).bind fun _ => (h.emit _).bind fun _ => Guarantees.pure _

theorem checkPinAuth (param : Option Bytes) (protocol : Option UInt64) (clientDataHash : Block 32)
    (permission : UInt8) (rpId : Bytes) (rpIdHash : Block 32) (isMake : Bool) :
    Guarantees R
      (checkPinAuth D param protocol clientDataHash permission rpId rpIdHash isMake) :=
  guarantees_checkPinAuth h.confirmUp h.verify

theorem confirmAssertion (q : GetAssertionRequest) (rpIdHash : Block 32) (first : Credential) :
    Guarantees R (confirmAssertion q rpIdHash first) :=
  Guarantees.ite ((h.confirmUp _ _ _ _).bind fun d => guarantees_decision d) (Guarantees.pure _)

theorem assertionExtensions (cred : Credential) (flags : UInt8) (ext : ExtensionsIn) :
    Guarantees R (assertionExtensions D cred flags ext) :=
  Guarantees.ite ((h.quiet (quiet_hmacSecretOutput _ _ _)).bind fun _ => Guarantees.pure _)
    (Guarantees.pure _)

theorem buildAssertion (cred : Credential) (rpIdHash clientDataHash : Block 32) (flags : UInt8)
    (bump : Bool) (ext : ExtensionsIn) (number : Option ℕ) :
    Guarantees R (buildAssertion D cred rpIdHash clientDataHash flags bump ext number) := by
  refine (h.quiet (quiet_loadKey cred)).bind fun key => ?_
  refine (h.assertionExtensions cred flags ext).bind fun extensions => ?_
  refine (h.quiet (quiet_signDer _ _)).bind fun sig => Guarantees.ite ?_ (Guarantees.pure _)
  refine (h.quiet (quiet_ask _)).bind fun now => ?_
  exact ((h.updateCountAndUsed _ _ _).orFail _).bind fun _ => Guarantees.pure _

/-! #### New rows -/

theorem makeCredentialChecks (body : Bytes) : Guarantees R (makeCredentialChecks D body) := by
  refine (Guarantees.ofExcept _).bind fun q => (h.checkPinAuth _ _ _ _ _ _ _).bind fun uv => ?_
  refine (Guarantees.gets _).bind fun _ => (h.confirmUp _ _ _ _).bind fun d => ?_
  refine (Guarantees.require _ _).bind fun _ => (Guarantees.require _ _).bind fun _ => ?_
  refine (guarantees_decision d).bind fun _ => (Guarantees.gets _).bind fun _ => ?_
  exact (Guarantees.require _ _).bind fun _ => Guarantees.pure _

theorem generateKey (kind : BackendKind) : Guarantees R (generateKey kind) := by
  refine (h.quiet (quiet_ask _)).bind fun m => ?_
  rcases m with _ | m
  · exact Guarantees.throw _
  · exact (h.emit _).bind fun _ => Guarantees.pure _

theorem createRow (template : Credential) : Guarantees R (createRow D template) := by
  refine (h.generateKey _).bind fun key => (h.quiet (quiet_random 32)).bind fun id => ?_
  refine (h.emit _).bind fun _ => (h.quiet (quiet_ask _)).bind fun now => ?_
  refine (h.quiet (quiet_random 64)).bind fun secret => Guarantees.bind ?_ fun wrapped => ?_
  · exact (h.quiet (quiet_wrappedSecret _ _)).bind fun _ => (h.emit _).bind fun _ =>
      Guarantees.pure _
  · exact (h.emit _).bind fun _ => Guarantees.pure _

theorem put (c : Credential) : Guarantees R (Store.put c) := by
  refine (Guarantees.ofExcept _).bind fun _ => (Guarantees.gets _).bind fun s => ?_
  refine (Guarantees.require _ _).bind fun _ => (h.updateStore _).bind fun _ => ?_
  refine (h.flush _).attempt.bind fun r => ?_
  rcases r with e | _
  · exact (h.updateStore _).bind fun _ => Guarantees.throw _
  · exact Guarantees.pure _

theorem erase (credId : Bytes) : Guarantees R (Store.erase credId) := by
  refine (Guarantees.gets _).bind fun s => ?_
  rcases s.findById credId with _ | removed
  · exact Guarantees.throw _
  refine (h.updateStore _).bind fun _ => (h.flush _).attempt.bind fun r => ?_
  rcases r with e | _
  · exact (h.updateStore _).bind fun _ => Guarantees.throw _
  · exact Guarantees.pure _

theorem destroyKey (c : Credential) : Guarantees R (destroyKey D c) := by
  refine Guarantees.ite ((h.quiet quiet_tick).bind fun _ => ?_) (Guarantees.pure _)
  exact (h.emit _).bind fun _ => (h.quiet quiet_tick).bind fun _ => h.emit _

theorem replaceRow (old : Credential) : Guarantees R (replaceRow D old) :=
  (h.destroyKey old).bind fun _ => (h.erase _).attempt.bind fun _ => Guarantees.pure _

theorem storeRow (c : Credential) : Guarantees R (storeRow D c) := by
  refine (h.put c).attempt.bind fun r => ?_
  rcases r with e | _
  · exact (h.destroyKey c).bind fun _ => Guarantees.throw _
  · exact Guarantees.pure _

theorem attestationMaterial : Guarantees R (attestationMaterial D) := by
  refine (Guarantees.gets _).bind fun a => ?_
  rcases a with _ | a
  · refine (h.generateKey _).bind fun key => ?_
    split
    · exact Guarantees.throw _
    · exact ((h.updateStore _).bind fun _ => h.flush _).bind fun _ => Guarantees.pure _
  · dsimp only
    split
    · exact Guarantees.throw _
    · refine (Guarantees.require _ _).bind fun _ => ?_
      split
      · exact Guarantees.throw _
      · exact (h.quiet (quiet_ask _)).bind fun _ => (Guarantees.require _ _).bind fun _ =>
          Guarantees.pure _

end AskOps

end Swpasskey
