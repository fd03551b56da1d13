import Swpasskey.Crypto.TpmBackend
import Swpasskey.Lib.Machine

/-!
# What the backend keeps in the TPM

A TPM has room for a few transient objects, so an object that is not given back is soon missed. The
requests of the backend obey a discipline. At any time it has a primary key and at most one other
object, which is loaded under the primary key, authorised before it is used, and given back before
another one is loaded; the primary key and every authorisation are those of the parameters that the
store gave last; and no request names an object or a context that is not there. Whatever the TPM
answers and wherever a call fails, the requests follow the discipline, and between two calls there
is the primary key only (`use_kept`).
-/

namespace Swpasskey

open Proc

namespace Tpm2

/-! ### The discipline -/

/-- The object of a reply. -/
def Reply.object? : Reply → Option EsysTr
  | object o => some o
  | _ => none

/-- What the backend has at a time: the contexts, the primary key, the transient object, with
whether its authorisation is set, and the parameters that the store gave last. -/
structure Live where
  tcti : Bool := false
  esys : Bool := false
  primary : Option EsysTr := none
  transient : Option (EsysTr × Bool) := none
  params : Option Tpm2Params := none
  deriving DecidableEq

namespace Live

variable (P : Provider)

/-- The requests that may be made. -/
def Allows (l : Live) : Request → Prop
  | .tctiInitialize _ => l = { params := l.params }
  | .esysInitialize | .tctiFinalize => l = { tcti := true, params := l.params }
  | .startup | .esysFinalize => l = { tcti := true, esys := true, params := l.params }
  | .createPrimary template => l = { tcti := true, esys := true, params := l.params } ∧
      l.params.map (fun p => primaryTemplate P p.srkUniqueSeed) = some template
  | .create parent auth _ _ => parent.isSome ∧
      l = { tcti := true, esys := true, primary := parent, params := l.params } ∧
        l.params.map Tpm2Params.objectAuth = some auth
  | .load parent _ _ => parent.isSome ∧
      l = { tcti := true, esys := true, primary := parent, params := l.params }
  | .setAuth o auth => l.esys ∧ l.transient = some (o, false) ∧
      l.params.map Tpm2Params.objectAuth = some auth
  | .unseal o | .sign o _ => l.esys ∧ l.transient = some (o, true)
  | .flushContext o => l.esys ∧ (l.transient.map Prod.fst).or l.primary = some o

instance (l : Live) : (request : Request) → Decidable (l.Allows P request)
  | .tctiInitialize _ | .esysInitialize | .startup | .esysFinalize | .tctiFinalize =>
    inferInstanceAs (Decidable (_ = _))
  | .createPrimary _ | .create _ _ _ _ | .load _ _ _ | .setAuth _ _ | .unseal _ | .sign _ _
  | .flushContext _ => inferInstanceAs (Decidable (_ ∧ _))

/-- What a request changes. An object is given back by the one request for it, a context too. -/
def after (l : Live) : Request → Reply → Live
  | .tctiInitialize _, reply => { l with tcti := reply = .done }
  | .esysInitialize, reply => { l with esys := reply = .done }
  | .createPrimary _, reply => { l with primary := reply.object? }
  | .load _ _ _, reply => { l with transient := reply.object?.map (·, false) }
  | .setAuth o _, reply => { l with transient := some (o, reply = .done) }
  | .flushContext _, _ =>
    if l.transient = none then { l with primary := none } else { l with transient := none }
  | .esysFinalize, _ => { l with esys := false }
  | .tctiFinalize, _ => { l with tcti := false }
  | _, _ => l

/-- The discipline. -/
def step (l : Live) : Event → Option Live
  | .asked request reply => if l.Allows P request then some (l.after request reply) else none
  | .given params => some { l with params := some params }

end Live

variable {P : Provider} {M : Mu} {b : Tpm2KeyBackend} {g : Option Tpm2Params} {l : Live} {s : Setup}
  {request : Request}

/-- What the backend should have, besides a transient object. -/
def Tpm2KeyBackend.live (b : Tpm2KeyBackend) (g : Option Tpm2Params)
    (transient : Option (EsysTr × Bool)) : Live :=
  ⟨b.tcti, b.esys, b.primary, transient, g⟩

/-- A backend that works, with the parameters that were given last, or one that has nothing. -/
structure Tpm2KeyBackend.Whole (b : Tpm2KeyBackend) (g : Option Tpm2Params) : Prop where
  tcti : b.tcti = b.esys
  primary : b.primary.isSome = b.esys
  params : b.esys = true → g = some b.params

/-- What has happened follows the discipline, and what is there is `l`. -/
def Traced (P : Provider) (l : Live) (s : Setup) : Prop :=
  Machine.run (Live.step P) {} s.log = some l

/-- The members are `b`, and what is there is `l`. -/
def At (P : Provider) (b : Tpm2KeyBackend) (l : Live) (s : Setup) : Prop :=
  s.backend = b ∧ Traced P l s

/-- Between two calls, when `g` are the parameters that were given last. -/
def KeptWith (P : Provider) (g : Option Tpm2Params) (s : Setup) : Prop :=
  s.backend.Whole g ∧ Traced P (s.backend.live g none) s

/-- Between two calls. -/
def Kept (P : Provider) (s : Setup) : Prop := ∃ g, KeptWith P g s

/-! ### The steps of the code -/

/-- A code that neither fails nor dies returns. -/
theorem exists_of_run {α : Type} {m : Code α} {Q : α → Setup → Prop}
    (h : m.Run s Q (fun _ _ => False) fun _ => False) : ∃ a s', m s = (.ok a, s') ∧ Q a s' := by
  rcases hm : m s with ⟨a | e | _, s'⟩
  · exact ⟨a, s', rfl, h.ok hm⟩
  · exact (h.err hm).elim
  · exact (h.died hm).elim

section Steps

variable {E : Status → Setup → Prop} {C : Setup → Prop}

theorem run_ask (h : At P b l s) (hl : l.Allows P request) :
    (ask request).Run s (fun reply => At P b (l.after request reply)) E C := by
  refine ⟨h.1, ?_⟩
  change Machine.run (Live.step P) {} (s.log ++ [.asked request _]) = _
  rw [Machine.run_concat, show Machine.run (Live.step P) {} s.log = some l from h.2]
  exact if_pos hl

/-- A call with a context. -/
theorem run_askEsys (h : At P b l s) (hesys : b.esys = true) (hl : l.Allows P request) :
    (askEsys request).Run s (fun reply => At P b (l.after request reply)) E C := by
  rw [askEsys, run_bind, run_gets, h.1, if_pos hesys]
  exact run_ask h hl

/-- A call without one. -/
theorem run_askEsys_null (h : At P b l s) (hesys : b.esys = false) :
    (askEsys request).Run s (fun reply s' => reply = .failed ∧ At P b l s') E C := by
  rw [askEsys, run_bind, run_gets, h.1, if_neg (by rw [hesys]; exact Bool.false_ne_true)]
  exact ⟨rfl, h⟩

theorem run_update {f : Tpm2KeyBackend → Tpm2KeyBackend} (h : At P b l s) :
    (update f).Run s (fun _ => At P (f b) l) E C :=
  ⟨congrArg f h.1, h.2⟩

theorem run_askParams (h : At P b l s) :
    askParams.Run s (fun params => At P b { l with params := some params })
      (fun _ => At P b l) C := by
  rw [Run, askParams]
  cases s.params.head with
  | ok params =>
    refine ⟨h.1, ?_⟩
    change Machine.run (Live.step P) {} (s.log ++ [.given params]) = _
    rw [Machine.run_concat, show Machine.run (Live.step P) {} s.log = some l from h.2]
    rfl
  | error e => exact h

theorem run_askCrypto (h : At P b l s) : askCrypto.Run s (fun _ => At P b l) E C := h

theorem run_backend {α : Type} {f : Tpm2KeyBackend → Code α} {Q : α → Setup → Prop}
    (h : At P b l s) (hf : (f b).Run s Q E C) : (gets (·.backend) >>= f).Run s Q E C := by
  rw [run_bind, run_gets, h.1]
  exact hf

end Steps

/-! ### Opening and closing -/

section Opening

variable {E : Status → Setup → Prop} {C : Setup → Prop} {tcti : Bytes} {params : Tpm2Params}

/-- The primary key is given back before its context. -/
theorem run_closeEsys (h : At P b (b.live g none) s) (htcti : b.tcti = true)
    (hesys : b.esys = true) :
    closeEsys.Run s (fun _ => At P { b with primary := none, esys := false }
      { tcti := true, params := g }) E C := by
  have hfinalize : Live.Allows P { tcti := true, esys := true, params := g } .esysFinalize := rfl
  have hclose : ∀ s', At P { b with primary := none }
      { tcti := true, esys := true, params := g } s' →
        (ask .esysFinalize >>= fun _ => update ({ · with esys := false })).Run s'
          (fun _ => At P { b with primary := none, esys := false } { tcti := true, params := g })
            E C :=
    fun s' h' => (run_ask h' hfinalize).bind fun _ _ h'' => run_update h''
  refine run_backend h ?_
  obtain ⟨tcti, esys, primary, old, name, hasProvider⟩ := b
  obtain rfl : tcti = true := htcti
  obtain rfl : esys = true := hesys
  cases primary with
  | none => exact hclose s h
  | some o =>
    have hflush : Live.Allows P { tcti := true, esys := true, primary := some o, params := g }
        (.flushContext o) := ⟨rfl, rfl⟩
    refine (run_ask h hflush).bind fun _ s₁ h₁ => ?_
    exact (run_update h₁).bind fun _ s₂ h₂ => hclose s₂ h₂

theorem run_closeTcti (h : At P b (b.live g none) s) (hesys : b.esys = false)
    (hprimary : b.primary = none) :
    closeTcti.Run s (fun _ => At P { b with tcti := false } { params := g }) E C := by
  have hfinalize : Live.Allows P { tcti := true, params := g } .tctiFinalize := rfl
  refine run_backend h ?_
  obtain ⟨tcti, esys, primary, old, name, hasProvider⟩ := b
  obtain rfl : esys = false := hesys
  obtain rfl : primary = none := hprimary
  cases tcti with
  | false => exact h
  | true => exact (run_ask h hfinalize).bind fun _ _ h' => run_update h'

/-- What is left of the members. -/
def Tpm2KeyBackend.shut (b : Tpm2KeyBackend) : Tpm2KeyBackend :=
  { tctiName := b.tctiName, hasProvider := b.hasProvider }

/-- **Nothing is left open**, at whatever step of the opening. -/
theorem run_shutdown (h : At P b (b.live g none) s) (htcti : b.esys = true → b.tcti = true)
    (hprimary : b.esys = false → b.primary = none) :
    shutdown.Run s (fun _ => At P b.shut { params := g }) E C := by
  have hclosed : ∀ s', At P { b with primary := none, esys := false, tcti := false }
      { params := g } s' →
        (update ({ · with params := .zero })).Run s' (fun _ => At P b.shut { params := g }) E C :=
    fun _ h' => run_update h'
  refine run_backend h ?_
  cases hesys : b.esys with
  | false =>
    have hb : b = { b with primary := none, esys := false } := by
      rw [← hesys, ← hprimary hesys]
    refine (run_closeTcti h hesys (hprimary hesys)).bind fun _ s' h' => hclosed s' ?_
    exact hb ▸ h'
  | true =>
    refine (run_closeEsys h (htcti hesys) hesys).bind fun _ s₁ h₁ => ?_
    have hlive : Tpm2KeyBackend.live { b with primary := none, esys := false } g none =
        { tcti := true, params := g } :=
      congrArg (fun t => (⟨t, false, none, none, g⟩ : Live)) (htcti hesys)
    exact (run_closeTcti (hlive.symm ▸ h₁) rfl rfl).bind fun _ s₂ h₂ => hclosed s₂ h₂

theorem Tpm2KeyBackend.whole_of_closed (htcti : b.tcti = false) (hesys : b.esys = false)
    (hprimary : b.primary = none) : b.Whole g where
  tcti := htcti.trans hesys.symm
  primary := (congrArg Option.isSome hprimary).trans hesys.symm
  params h := absurd (hesys.symm.trans h) Bool.false_ne_true

theorem Tpm2KeyBackend.Whole.primary_eq_none (hb : b.Whole g) (hesys : b.esys = false) :
    b.primary = none := by
  have hnone : b.primary.isSome = false := hb.primary.trans hesys
  rwa [Option.isSome_eq_false_iff, Option.isNone_iff_eq_none] at hnone

theorem At.kept (h : At P b (b.live g none) s) (hb : b.Whole g) : KeptWith P g s := by
  obtain ⟨rfl, htraced⟩ := h
  exact ⟨hb, htraced⟩

/-- What is shut is kept. -/
theorem At.kept_shut (h : At P b.shut { params := g } s) : KeptWith P g s :=
  At.kept h (Tpm2KeyBackend.whole_of_closed rfl rfl rfl)

/-- In the end there is nothing. -/
theorem KeptWith.shutdown (h : KeptWith P g s) :
    shutdown.Run s (fun _ => At P s.backend.shut { params := g }) E C := by
  obtain ⟨hb, htraced⟩ := h
  exact run_shutdown ⟨rfl, htraced⟩ hb.tcti.trans hb.primary_eq_none

theorem run_abandon (h : At P b (b.live g none) s) (htcti : b.esys = true → b.tcti = true)
    (hprimary : b.primary = none) {Q : Unit → Setup → Prop} :
    abandon.Run s Q (fun _ => KeptWith P g) C :=
  (run_shutdown h htcti fun _ => hprimary).bind fun _ _ h' => h'.kept_shut

theorem run_createPrimary
    (h : At P b { tcti := true, esys := true, params := some params } s) (htcti : b.tcti = true)
    (hesys : b.esys = true) (hprimary : b.primary = none) (hparams : b.params = params) :
    (createPrimary P tcti params).Run s (fun _ => KeptWith P (some params))
      (fun _ => KeptWith P (some params)) C := by
  obtain ⟨_, _, _, old, name, hasProvider⟩ := b
  obtain rfl := htcti
  obtain rfl := hesys
  obtain rfl := hprimary
  obtain rfl : params = old := hparams.symm
  have habandon : ∀ s', At P ⟨true, true, none, params, name, hasProvider⟩
      { tcti := true, esys := true, params := some params } s' →
        abandon.Run s' (fun _ => KeptWith P (some params)) (fun _ => KeptWith P (some params)) C :=
    fun _ h' => run_abandon h' (fun _ => rfl) rfl
  have hstartup : Live.Allows P { tcti := true, esys := true, params := some params }
      .startup := rfl
  have hcreate : Live.Allows P { tcti := true, esys := true, params := some params }
      (.createPrimary (primaryTemplate P params.srkUniqueSeed)) := ⟨rfl, rfl⟩
  refine (run_askEsys h rfl hstartup).bind fun _ s₁ h₁ => ?_
  refine (run_askCrypto h₁).bind fun ok s₂ h₂ => ?_
  cases ok with
  | false => exact habandon s₂ h₂
  | true =>
    refine (run_askEsys h₂ rfl hcreate).bind fun reply s₃ h₃ => ?_
    cases reply with
    | object o => exact (run_update h₃).weaken fun _ s₄ h₄ => h₄.kept ⟨rfl, rfl, fun _ => rfl⟩
    | failed | done | blobs pub priv | data d | signature sig => exact habandon s₃ h₃

theorem run_init (h : At P b { params := some params } s) (hb : b.shut = b) :
    (init P tcti params).Run s (fun _ => KeptWith P (some params))
      (fun _ => KeptWith P (some params)) C := by
  have htctiInitialize : Live.Allows P { params := some params } (.tctiInitialize tcti) := rfl
  have hesysInitialize : Live.Allows P { tcti := true, params := some params }
      .esysInitialize := rfl
  rw [← hb] at h
  refine (run_update h).bind fun _ s₁ h₁ => ?_
  refine (run_ask h₁ htctiInitialize).bind fun reply s₂ h₂ => ?_
  cases reply with
  | done =>
    refine (run_update h₂).bind fun _ s₃ h₃ => ?_
    refine (run_ask h₃ hesysInitialize).bind fun reply s₄ h₄ => ?_
    cases reply with
    | done => exact (run_update h₄).bind fun _ s₅ h₅ => run_createPrimary h₅ rfl rfl rfl rfl
    | failed | object o | blobs pub priv | data d | signature sig =>
      exact run_abandon h₄ (fun h => absurd h Bool.false_ne_true) rfl
  | failed | object o | blobs pub priv | data d | signature sig =>
    exact h₂.kept (Tpm2KeyBackend.whole_of_closed rfl rfl rfl)

/-- New parameters are given to a backend that still has the old ones; it shuts before it opens
again. -/
theorem run_reinitAfterReset (h : Kept P s) :
    (reinitAfterReset P).Run s (fun _ => Kept P) (fun _ => Kept P) C := by
  obtain ⟨g, hb, htraced⟩ := h
  have hat : At P s.backend (s.backend.live g none) s := ⟨rfl, htraced⟩
  refine run_backend hat ?_
  refine run_bind.mpr (run_require.mpr ⟨fun _ => ?_, fun _ => ⟨g, hat.kept hb⟩⟩)
  refine run_bind.mpr ((run_askParams hat).mono (fun params s₁ h₁ => ?_)
    (fun _ _ h₁ => ⟨g, h₁.kept hb⟩) fun _ => id)
  refine run_backend h₁ ?_
  refine (run_shutdown (g := some params) h₁ hb.tcti.trans hb.primary_eq_none).bind
    fun _ s₂ h₂ => ?_
  exact (run_init h₂ rfl).mono (fun _ _ h₃ => ⟨_, h₃⟩) (fun _ _ h₃ => ⟨_, h₃⟩) fun _ => id

end Opening

/-! ### The calls -/

section Calls

variable {E : Status → Setup → Prop} {C : Setup → Prop}

/-- No read of `decode_handle` is outside of the handle. -/
theorem exists_decodeHandle (handle : Bytes) : ∃ parts, decodeHandle handle = some parts := by
  obtain herr | ⟨a, b, c, e, pub, priv, rfl, hpub⟩ := decodeHandle_cases handle
  · exact ⟨_, herr⟩
  · rw [decodeHandle_of_pub hpub]
    split_ifs
    · exact ⟨_, rfl⟩
    · exact ⟨_, rfl⟩

theorem run_splitHandle (h : At P b l s) (handle : Bytes) :
    (splitHandle handle).Run s (fun _ => At P b l) (fun _ => At P b l) C := by
  obtain ⟨parts, hparts⟩ := exists_decodeHandle handle
  rw [splitHandle, hparts]
  exact run_ofExcept.mpr ⟨fun _ _ => h, fun _ _ => h⟩

/-- A working backend may load under its primary key. -/
theorem Tpm2KeyBackend.Whole.live (hb : b.Whole g) (hesys : b.esys = true) :
    b.primary.isSome ∧
      b.live g none = { tcti := true, esys := true, primary := b.primary, params := g } :=
  ⟨hb.primary.trans hesys, by rw [Tpm2KeyBackend.live, hb.tcti, hesys]⟩

theorem Tpm2KeyBackend.Whole.auth (hb : b.Whole g) (hesys : b.esys = true) :
    g.map Tpm2Params.objectAuth = some b.params.objectAuth :=
  congrArg (Option.map Tpm2Params.objectAuth) (hb.params hesys)

theorem run_create (h : At P b (b.live g none) s) (hb : b.Whole g) (data : Bytes)
    (template : Template) :
    (askEsys (.create b.primary b.params.objectAuth data template)).Run s
      (fun _ => At P b (b.live g none)) E C := by
  cases hesys : b.esys with
  | false => exact (run_askEsys_null h hesys).weaken fun _ _ h' => h'.2
  | true =>
    have hlive := hb.live hesys
    exact run_askEsys h hesys ⟨hlive.1, hlive.2, hb.auth hesys⟩

/-- An object that is loaded is authorised, or given back. -/
theorem run_loadTransient (h : At P b (b.live g none) s) (hb : b.Whole g) (handle : Bytes) :
    (loadTransient M handle).Run s
      (fun o s' => b.esys = true ∧ At P b (b.live g (some (o, true))) s')
      (fun _ => At P b (b.live g none)) C := by
  refine run_bind.mpr ((run_splitHandle h handle).weaken fun parts s₁ h₁ => ?_)
  rcases M.unmarshalPublic parts.1 with _ | pub
  · exact h₁
  rcases M.unmarshalPrivate parts.2 with _ | priv
  · exact h₁
  refine run_backend h₁ ?_
  cases hesys : b.esys with
  | false =>
    refine (run_askEsys_null h₁ hesys).bind ?_
    rintro _ s₂ ⟨rfl, h₂⟩
    exact h₂
  | true =>
    have hload : (b.live g none).Allows P (.load b.primary priv pub) := hb.live hesys
    refine (run_askEsys h₁ hesys hload).bind fun reply s₂ h₂ => ?_
    cases reply with
    | object o =>
      have hset : (b.live g (some (o, false))).Allows P (.setAuth o b.params.objectAuth) :=
        ⟨hesys, rfl, hb.auth hesys⟩
      have hflush : (b.live g (some (o, false))).Allows P (.flushContext o) := ⟨hesys, rfl⟩
      refine (run_askEsys h₂ hesys hset).bind fun reply s₃ h₃ => ?_
      cases reply with
      | done => exact ⟨rfl, h₃⟩
      | failed | object o' | blobs pub priv | data d | signature sig =>
        exact (run_askEsys h₃ hesys hflush).bind fun _ s₄ h₄ => h₄
    | failed | done | blobs pub priv | data d | signature sig => exact h₂

/-- An object that is used is given back. -/
theorem run_withTransient {use : EsysTr → Request} (h : At P b (b.live g none) s) (hb : b.Whole g)
    (handle : Bytes)
    (huse : ∀ o, b.esys = true → (b.live g (some (o, true))).Allows P (use o))
    (hafter : ∀ o reply, (b.live g (some (o, true))).after (use o) reply =
      b.live g (some (o, true))) :
    (withTransient M handle use).Run s (fun _ => At P b (b.live g none))
      (fun _ => At P b (b.live g none)) C := by
  refine (run_loadTransient h hb handle).bind ?_
  rintro o s₁ ⟨hesys, h₁⟩
  have hflush : (b.live g (some (o, true))).Allows P (.flushContext o) := ⟨hesys, rfl⟩
  refine (run_askEsys h₁ hesys (huse o hesys)).bind fun reply s₂ h₂ => ?_
  exact (run_askEsys (hafter o reply ▸ h₂) hesys hflush).bind fun _ _ h₃ => h₃

theorem run_generate (h : At P b (b.live g none) s) (hb : b.Whole g) :
    (generate M).Run s (fun _ => At P b (b.live g none)) (fun _ => At P b (b.live g none)) C := by
  refine run_backend h ((run_create h hb _ _).bind fun reply s₁ h₁ => ?_)
  cases reply with
  | blobs pub priv =>
    dsimp only
    split
    · exact h₁
    · exact h₁
  | failed | done | object o | data d | signature sig => exact h₁

theorem run_load (h : At P b l s) (handle : Bytes) (pub : P256PublicKey) :
    (load M handle pub).Run s (fun _ => At P b l) (fun _ => At P b l) C := by
  refine run_bind.mpr ((run_splitHandle h handle).weaken fun parts s₁ h₁ => ?_)
  rcases M.unmarshalPublic parts.1 with _ | p
  · exact h₁
  · exact run_bind.mpr (run_require.mpr ⟨fun _ => h₁, fun _ => h₁⟩)

theorem run_wrapSecret (h : At P b (b.live g none) s) (hb : b.Whole g) (secret : Bytes) :
    (wrapSecret M secret).Run s (fun _ => At P b (b.live g none))
      (fun _ => At P b (b.live g none)) C := by
  refine run_backend h (run_bind.mpr (run_require.mpr ⟨fun _ => ?_, fun _ => h⟩))
  refine (run_create h hb _ _).bind fun reply s₁ h₁ => ?_
  cases reply with
  | blobs pub priv =>
    dsimp only
    split
    · exact h₁
    · exact h₁
  | failed | done | object o | data d | signature sig => exact h₁

theorem run_unwrapSecret (h : At P b (b.live g none) s) (hb : b.Whole g) (wrapped : Bytes) :
    (unwrapSecret M wrapped).Run s (fun _ => At P b (b.live g none))
      (fun _ => At P b (b.live g none)) C := by
  have huse (o : EsysTr) (hesys : b.esys = true) :
      (b.live g (some (o, true))).Allows P (.unseal o) := ⟨hesys, rfl⟩
  refine (run_withTransient h hb wrapped huse fun _ _ => rfl).bind fun reply s₁ h₁ => ?_
  cases reply with
  | data d => exact h₁
  | failed | done | object o | blobs pub priv | signature sig => exact h₁

theorem run_sign (h : At P b (b.live g none) s) (hb : b.Whole g) (handle message : Bytes) :
    (sign P M handle message).Run s (fun _ => At P b (b.live g none))
      (fun _ => At P b (b.live g none)) C := by
  have huse (o : EsysTr) (hesys : b.esys = true) :
      (b.live g (some (o, true))).Allows P (.sign o (P.sha256 message)) := ⟨hesys, rfl⟩
  refine (run_withTransient h hb handle huse fun _ _ => rfl).bind fun reply s₁ h₁ => ?_
  cases reply with
  | signature sig => exact run_bind.mpr (run_require.mpr ⟨fun _ => h₁, fun _ => h₁⟩)
  | failed | done | object o | blobs pub priv | data d => exact h₁

/-- **Every call keeps the discipline**, whatever it returns. -/
theorem run_exec (h : Kept P s) (c : Call) :
    (c.exec P M).Run s (fun _ => Kept P) (fun _ => Kept P) C := by
  obtain ⟨g, hb, htraced⟩ := h
  have hat : At P s.backend (s.backend.live g none) s := ⟨rfl, htraced⟩
  have hkept : ∀ {α : Type} {m : Code α}, m.Run s (fun _ => At P s.backend (s.backend.live g none))
      (fun _ => At P s.backend (s.backend.live g none)) C →
        (m >>= fun _ => pure ()).Run s (fun _ => Kept P) (fun _ => Kept P) C := fun hm =>
    run_bind.mpr (hm.mono (fun _ _ h' => ⟨g, h'.kept hb⟩) (fun _ _ h' => ⟨g, h'.kept hb⟩)
      fun _ => id)
  cases c with
  | generate => exact hkept (run_generate hat hb)
  | load handle pub => exact hkept (run_load hat handle pub)
  | sign handle message => exact hkept (run_sign hat hb handle message)
  | wrapSecret secret => exact hkept (run_wrapSecret hat hb secret)
  | unwrapSecret wrapped => exact hkept (run_unwrapSecret hat hb wrapped)
  | destroy handle => exact ⟨g, hat.kept hb⟩
  | reinitAfterReset => exact run_reinitAfterReset ⟨g, hat.kept hb⟩

end Calls

/-! ### The life of a backend -/

section Life

variable {E : Status → Setup → Prop} {C : Setup → Prop}

theorem run_calls (cs : List Call) (h : Kept P s) :
    (calls P M cs).Run s (fun _ => Kept P) E C := by
  refine Run.forEach (I := fun _ => Kept P) (fun c _ s₁ h₁ => ?_) cs s h
  exact run_bind.mpr (run_attempt.mpr (run_exec h₁ c))

/-- A way to the TPM that does not work leaves nothing behind. -/
theorem run_probe {params : Tpm2Params} (tctis : List Bytes)
    (h : At P b.shut { params := some params } s) :
    (probe P params tctis).Run s (fun _ => Kept P) E C := by
  induction tctis generalizing s b with
  | nil => exact ⟨_, h.kept_shut⟩
  | cons tcti rest ih =>
    refine (run_update h).bind fun _ s₁ h₁ => ?_
    refine run_bind.mpr (run_attempt.mpr ((run_init h₁ rfl).mono ?_ ?_ fun _ => id))
    · rintro _ s₂ ⟨hb, htraced⟩
      exact (run_update ⟨rfl, htraced⟩).bind fun _ s₃ h₃ =>
        ⟨_, h₃.kept ⟨hb.tcti, hb.primary, hb.params⟩⟩
    · exact fun _ s₂ h₂ => h₂.shutdown.bind fun _ s₃ h₃ => ih h₃

theorem run_makeTpm2KeyBackend (tctis : List Bytes) (h : At P {} {} s) :
    (makeTpm2KeyBackend P tctis).Run s (fun _ => Kept P) E C := by
  have hkept : ∀ s', At P {} {} s' → Kept P s' := fun _ h' =>
    ⟨none, At.kept_shut (b := {}) h'⟩
  rw [makeTpm2KeyBackend]
  split_ifs
  · exact hkept s h
  · refine run_bind.mpr (run_attempt.mpr ((run_askParams h).mono ?_ ?_ fun _ => id))
    · exact fun _ s₁ h₁ => run_probe (b := {}) tctis h₁
    · exact fun _ s₁ h₁ => hkept s₁ h₁

theorem run_use (tctis : List Bytes) (cs : List Call) (h : At P {} {} s) :
    (use P M tctis cs).Run s (fun _ => Kept P) E C := by
  refine (run_makeTpm2KeyBackend tctis h).bind fun found s₁ h₁ => ?_
  cases found with
  | false => exact h₁
  | true => exact run_calls cs h₁

end Life

end Tpm2

end Swpasskey
