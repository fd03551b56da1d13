import Swpasskey.Daemon.Loop

/-!
# Delivery of responses

What the HID thread has written and will write is a sequence of whole responses, in the order
in which their commands were admitted, with the packets of the HID thread itself and the
keepalives between them (`Delivers`). Every step of either thread keeps it so: the worker
appends a whole response to the outbox and releases the slot in one section, and the HID
thread takes the whole outbox and puts a keepalive behind it in one section.
-/

namespace Swpasskey

open HidFramer HidDevice

namespace Loop

/-! ### Sequences of whole responses -/

/-- The packets of one response. -/
def packetsOf (n : ℕ) (l : List Packet) : List Packet := l.filter fun p => p.origin = .response n

theorem packetsOf_append (n : ℕ) (l l' : List Packet) :
    packetsOf n (l ++ l') = packetsOf n l ++ packetsOf n l' := List.filter_append ..

theorem packetsOf_responsePackets (n j : ℕ) (resp : Message) :
    packetsOf n (responsePackets j resp) = if n = j then responsePackets j resp else [] := by
  split_ifs with heq
  · refine List.filter_eq_self.mpr fun p hp => ?_
    obtain ⟨r, -, rfl⟩ := List.mem_map.mp hp
    exact decide_eq_true (by rw [heq])
  · refine List.filter_eq_nil_iff.mpr fun p hp hn => heq ?_
    obtain ⟨r, -, rfl⟩ := List.mem_map.mp hp
    exact (Origin.response.inj (of_decide_eq_true hn)).symm

/-- The HID thread's own packet. -/
def Packet.Own (p : Packet) : Prop := p.origin = .reply ∨ ∃ n, p.origin = .resync n

/-- The packets deliver the responses `i` to `j - 1`, each whole and in order; a keepalive is
for a command that is admitted and whose response is still to come. -/
inductive Delivers (admitted answers : List Message) (i : ℕ) : List Packet → ℕ → Prop
  | nil : Delivers admitted answers i [] i
  | own {l : List Packet} {j : ℕ} (hl : Delivers admitted answers i l j) (p : Packet)
      (hp : Packet.Own p) : Delivers admitted answers i (l ++ [p]) j
  | keepalive {l : List Packet} {j : ℕ} (hl : Delivers admitted answers i l j) (n : ℕ) (r : Report)
      (hn : j ≤ n) (msg : Message) (hmsg : admitted[n]? = some msg) (hcid : readCidLe r = msg.cid) :
      Delivers admitted answers i (l ++ [⟨.keepalive n, r⟩]) j
  | response {l : List Packet} {j : ℕ} (hl : Delivers admitted answers i l j) (resp : Message)
      (hresp : answers[j]? = some resp) :
      Delivers admitted answers i (l ++ responsePackets j resp) (j + 1)

section Delivers

variable {admitted answers admitted' answers' : List Message} {i j k n : ℕ}
  {l l' : List Packet} {resp : Message}

namespace Delivers

theorem le (h : Delivers admitted answers i l j) : i ≤ j := by
  induction h with
  | nil => exact le_rfl
  | own _ _ _ ih => exact ih
  | keepalive _ _ _ _ _ _ _ ih => exact ih
  | response _ _ _ ih => exact ih.trans (Nat.le_succ _)

theorem trans (h : Delivers admitted answers i l j) (h' : Delivers admitted answers j l' k) :
    Delivers admitted answers i (l ++ l') k := by
  induction h' with
  | nil => rwa [List.append_nil]
  | own _ p hp ih => rw [← List.append_assoc]; exact ih.own p hp
  | keepalive _ n r hn msg hmsg hcid ih =>
    rw [← List.append_assoc]
    exact ih.keepalive n r hn msg hmsg hcid
  | response _ resp hresp ih => rw [← List.append_assoc]; exact ih.response resp hresp

/-- More commands and more responses do not matter. -/
theorem mono (h : Delivers admitted answers i l j) (hadmitted : admitted <+: admitted')
    (hanswers : answers <+: answers') : Delivers admitted' answers' i l j := by
  have hget : ∀ {l l' : List Message} {n : ℕ} {m : Message}, l <+: l' → l[n]? = some m →
      l'[n]? = some m := by
    rintro l _ n m ⟨t, rfl⟩ hm
    exact (List.getElem?_append_left (List.getElem?_eq_some_iff.mp hm).1).trans hm
  induction h with
  | nil => exact .nil
  | own _ p hp ih => exact ih.own p hp
  | keepalive _ n r hn msg hmsg hcid ih =>
    exact ih.keepalive n r hn msg (hget hadmitted hmsg) hcid
  | response _ resp hresp ih => exact ih.response resp (hget hanswers hresp)

theorem owns (h : Delivers admitted answers i l j) (hl' : ∀ p ∈ l', Packet.Own p) :
    Delivers admitted answers i (l ++ l') j := by
  induction l' using List.reverseRecOn with
  | nil => rwa [List.append_nil]
  | append_singleton l' p ih =>
    rw [← List.append_assoc]
    refine (ih fun q hq => hl' q (List.mem_append_left _ hq)).own p (hl' p ?_)
    exact List.mem_append_right _ (List.mem_singleton_self p)

/-- What a packet of the list may be. -/
theorem mem_cases (h : Delivers admitted answers i l j) : ∀ p ∈ l, Packet.Own p ∨
    (∃ n msg, p.origin = .keepalive n ∧ admitted[n]? = some msg ∧ readCidLe p.report = msg.cid) ∨
      ∃ n, p.origin = .response n ∧ i ≤ n ∧ n < j := by
  induction h with
  | nil => intro p hp; cases hp
  | own hl q hq ih =>
    intro p hp
    rcases List.mem_append.mp hp with hp | hp
    · exact ih p hp
    · exact .inl (List.mem_singleton.mp hp ▸ hq)
  | keepalive hl n r _ msg hmsg hcid ih =>
    intro p hp
    rcases List.mem_append.mp hp with hp | hp
    · exact ih p hp
    · rw [List.mem_singleton.mp hp]
      exact .inr (.inl ⟨n, msg, rfl, hmsg, hcid⟩)
  | response hl resp _ ih =>
    intro p hp
    rcases List.mem_append.mp hp with hp | hp
    · refine (ih p hp).imp_right (Or.imp_right ?_)
      rintro ⟨n, hn, hle, hlt⟩
      exact ⟨n, hn, hle, hlt.trans (Nat.lt_succ_self _)⟩
    · obtain ⟨r, -, rfl⟩ := List.mem_map.mp hp
      exact .inr (.inr ⟨_, rfl, hl.le, Nat.lt_succ_self _⟩)

/-- The responses in the list are those it delivers. -/
theorem response_lt (h : Delivers admitted answers i l j) {p : Packet} (hp : p ∈ l)
    (hn : p.origin = .response n) : i ≤ n ∧ n < j := by
  rcases h.mem_cases p hp with (hown | ⟨_, hown⟩) | ⟨_, _, hkeep, -⟩ | ⟨m, hm, hlt⟩
  · cases hown.symm.trans hn
  · cases hown.symm.trans hn
  · cases hkeep.symm.trans hn
  · cases hm.symm.trans hn
    exact hlt

theorem packetsOf_eq_nil (h : Delivers admitted answers i l j) (hn : n < i ∨ j ≤ n) :
    packetsOf n l = [] := by
  refine List.filter_eq_nil_iff.mpr fun p hp heq => ?_
  have := h.response_lt hp (of_decide_eq_true heq)
  omega

/-- Each response is there once. -/
theorem packetsOf_eq (h : Delivers admitted answers i l j) (hresp : answers[n]? = some resp)
    (hi : i ≤ n) (hj : n < j) : packetsOf n l = responsePackets n resp := by
  induction h with
  | nil => omega
  | own hl q hq ih =>
    have hnot : packetsOf n [q] = [] := by
      rcases hq with hq | ⟨_, hq⟩ <;> simp [packetsOf, hq]
    rw [packetsOf_append, hnot, List.append_nil, ih hj]
  | keepalive hl m r _ _ _ _ ih =>
    have hnot : packetsOf n [⟨.keepalive m, r⟩] = [] := by simp [packetsOf]
    rw [packetsOf_append, hnot, List.append_nil, ih hj]
  | @response l j hl resp' hresp' ih =>
    rw [packetsOf_append, packetsOf_responsePackets]
    split_ifs with heq
    · subst heq
      cases hresp'.symm.trans hresp
      rw [hl.packetsOf_eq_nil (.inr le_rfl), List.nil_append]
    · rw [List.append_nil]
      exact ih (by omega)

/-- Each response is there whole. -/
theorem isInfix (h : Delivers admitted answers i l j) (hresp : answers[n]? = some resp)
    (hi : i ≤ n) (hj : n < j) : responsePackets n resp <:+: l := by
  induction h with
  | nil => omega
  | own hl q _ ih => exact (ih hj).trans (List.prefix_append _ _).isInfix
  | keepalive hl m r _ _ _ _ ih => exact (ih hj).trans (List.prefix_append _ _).isInfix
  | @response l j hl resp' hresp' ih =>
    by_cases heq : n = j
    · subst heq
      cases hresp'.symm.trans hresp
      exact (List.suffix_append _ _).isInfix
    · exact (ih (by omega)).trans (List.prefix_append _ _).isInfix

end Delivers

/-- After a packet of a response comes no packet of an earlier response and no keepalive for its
command. -/
def InOrder (p q : Packet) : Prop :=
  ∀ m, p.origin = .response m → (∀ n, q.origin = .response n → m ≤ n) ∧ q.origin ≠ .keepalive m

theorem Delivers.inOrder (h : Delivers admitted answers i l j) : l.Pairwise InOrder := by
  induction h with
  | nil => exact List.Pairwise.nil
  | own hl q hq ih =>
    refine List.pairwise_append.mpr ⟨ih, List.pairwise_singleton _ _, fun p _ q' hq' m _ => ?_⟩
    rw [List.mem_singleton.mp hq']
    rcases hq with hq | ⟨_, hq⟩ <;> simp [hq]
  | keepalive hl k r hk _ _ _ ih =>
    refine List.pairwise_append.mpr ⟨ih, List.pairwise_singleton _ _, fun p hp q' hq' m hm => ?_⟩
    rw [List.mem_singleton.mp hq']
    refine ⟨fun n hn => (by cases hn), fun heq => ?_⟩
    cases heq
    exact absurd (hl.response_lt hp hm).2 (not_lt.mpr hk)
  | @response l j hl resp _ ih =>
    have hresponse : ∀ q ∈ responsePackets j resp, q.origin = .response j := by
      intro q hq
      obtain ⟨r, -, rfl⟩ := List.mem_map.mp hq
      rfl
    refine List.pairwise_append.mpr ⟨ih, List.pairwise_of_forall_mem_list ?_,
      fun p hp q hq m hm => ?_⟩
    · intro p hp q hq m hm
      cases (hresponse p hp).symm.trans hm
      rw [hresponse q hq]
      exact ⟨fun n hn => (Origin.response.inj hn).le, Origin.noConfusion⟩
    · rw [hresponse q hq]
      refine ⟨fun n hn => ?_, Origin.noConfusion⟩
      rw [← Origin.response.inj hn]
      exact (hl.response_lt hp hm).2.le

end Delivers

/-! ### Both threads -/

/-- What has been written and is being written delivers some responses, and the outbox the
others. -/
def Delivery (s : Loop) : Prop :=
  ∃ k, Delivers s.admitted s.answers 0 (s.written ++ s.batch) k ∧
    Delivers s.admitted s.answers k s.outbox s.answers.length

section Steps

variable {s s' : Loop} {a : Action} {ing : Ingest} {d : HidDevice}

theorem readCidLe_keepalivePacket (cid : UInt32) (status : UInt8) :
    readCidLe (keepalivePacket cid status) = cid :=
  readCidLe_ofPadded (by decide : 8 ≤ kReportSize)

theorem own_replyOrigin (d : HidDevice) (r p : Report) (n : ℕ) :
    Packet.Own ⟨replyOrigin d r n, p⟩ := by
  unfold Packet.Own replyOrigin
  split_ifs
  · exact .inr ⟨n, rfl⟩
  · exact .inl rfl

theorem Delivery.drained (h : Delivery s) (hslot : Slot s) (hbatch : s.batch = []) (now : ℕ) :
    Delivery (s.drained now) := by
  obtain ⟨k, hsent, hqueued⟩ := h
  rw [hbatch, List.append_nil] at hsent
  have hall := hsent.trans hqueued
  unfold Loop.drained
  split_ifs with hdue
  · refine ⟨s.answers.length, ?_, .nil⟩
    obtain ⟨msg, hmsg⟩ := Option.isSome_iff_exists.mp (of_decide_eq_true hdue).1
    obtain ⟨hnumber, -, hadmitted, hcid, -⟩ := hslot.busy msg hmsg
    rw [← List.append_assoc]
    refine hall.keepalive _ _ hnumber.ge msg (hnumber ▸ hadmitted) ?_
    rw [readCidLe_keepalivePacket, hcid]
  · exact ⟨s.answers.length, hall, .nil⟩

theorem Delivery.ingested (h : Delivery s) (hbatch : s.batch = []) (r : Report) (ing : Ingest)
    (d : HidDevice) (started : ℕ) : Delivery (s.ingested r ing d started) := by
  obtain ⟨k, hsent, hqueued⟩ := h
  have hadmitted : s.admitted <+: s.admitted ++ ing.toWorker.toList := List.prefix_append _ _
  refine ⟨k, ?_, hqueued.mono hadmitted (List.prefix_refl _)⟩
  rw [hbatch, List.append_nil] at hsent
  refine (hsent.mono hadmitted (List.prefix_refl _)).owns fun p hp => ?_
  obtain ⟨p, -, rfl⟩ := List.mem_map.mp hp
  exact own_replyOrigin s.device r p _

theorem Delivery.published {n : ℕ} {resp : Message} (h : Delivery s)
    (hn : n = s.answers.length) : Delivery (s.published n resp) := by
  obtain ⟨k, hsent, hqueued⟩ := h
  have hanswers : s.answers <+: s.answers ++ [resp] := List.prefix_append _ _
  refine ⟨k, hsent.mono (List.prefix_refl _) hanswers, ?_⟩
  have hnext := (hqueued.mono (List.prefix_refl _) hanswers).response resp
    List.getElem?_concat_length
  rw [← hn] at hnext
  have hlen : (s.published n resp).answers.length = n + 1 := by
    rw [hn]
    exact List.length_append
  rw [hlen]
  exact hnext

theorem Delivery.step (h : Delivery s) (hslot : Slot s) (hstep : s.step a = some s') :
    Delivery s' := by
  rcases step_stepped hstep with ⟨p, rest, hbatch⟩ | ⟨now, -, hbatch⟩ | ⟨now, -, hbatch⟩ | ⟨r⟩ |
    ⟨r, now, draws, started, ing, d, -, hbatch, -⟩ | ⟨msg⟩ | ⟨up⟩ | ⟨result⟩ | ⟨n, resp, hworker⟩
  · obtain ⟨k, hsent, hqueued⟩ := h
    refine ⟨k, ?_, hqueued⟩
    rw [hbatch] at hsent
    simpa using hsent
  · exact h.drained hslot hbatch now
  · obtain ⟨k, hsent, hqueued⟩ := h
    refine ⟨k, ?_, hqueued⟩
    rw [hbatch, List.append_nil] at hsent
    refine hsent.owns fun p hp => ?_
    obtain ⟨r, -, rfl⟩ := List.mem_map.mp hp
    exact .inl rfl
  · exact h
  · exact h.ingested hbatch r ing d started
  · exact h
  · exact h
  · exact h
  · obtain ⟨msg, hcmd, hn, -⟩ := hslot.publishing n resp hworker
    exact h.published (hn.trans (hslot.busy msg hcmd).1)

end Steps

/-- Every response is as long as a message may be. -/
def Framable (s : Loop) : Prop :=
  (∀ resp ∈ s.answers, resp.payload.length ≤ kMaxMessage) ∧
    ∀ n resp, s.worker = .publishing n resp → resp.payload.length ≤ kMaxMessage

/-- What holds of every state of the loop. -/
structure Delivered (s : Loop) : Prop where
  /-- At most one command is in flight: the last one admitted. -/
  single : s.admitted.length = s.answers.length + if s.inflight.cmd.isSome then 1 else 0
  /-- A completed command has a response, on its channel and with its command; none of its
  frames is missing, and each names the channel. -/
  answered : ∀ (n : ℕ) (resp : Message), s.answers[n]? = some resp →
    ∃ msg : Message, s.admitted[n]? = some msg ∧ resp.cid = msg.cid ∧ resp.cmd = msg.cmd ∧
      frame resp ≠ [] ∧ ∀ r ∈ frame resp, readCidLe r = msg.cid
  /-- The response is there once. -/
  once : ∀ (n : ℕ) (resp : Message), s.answers[n]? = some resp →
    packetsOf n (s.written ++ s.batch ++ s.outbox) = responsePackets n resp
  /-- It is contiguous, and either written (or being written) or wholly in the outbox. -/
  whole : ∀ (n : ℕ) (resp : Message), s.answers[n]? = some resp →
    responsePackets n resp <:+: s.written ++ s.batch ∧ packetsOf n s.outbox = [] ∨
      responsePackets n resp <:+: s.outbox ∧ packetsOf n (s.written ++ s.batch) = []
  /-- A command that is not completed has none. -/
  none : ∀ n, s.answers.length ≤ n → packetsOf n (s.written ++ s.batch ++ s.outbox) = []
  /-- Responses come in the order of admission, and no keepalive for a command comes after a
  packet of its response. -/
  inOrder : (s.written ++ s.batch ++ s.outbox).Pairwise InOrder
  /-- A keepalive is for a command that is admitted, on its channel. -/
  keepalive : ∀ p ∈ s.written ++ s.batch ++ s.outbox, ∀ n, p.origin = .keepalive n →
    ∃ msg : Message, s.admitted[n]? = some msg ∧ readCidLe p.report = msg.cid

theorem frame_ne_nil {msg : Message} (h : msg.payload.length ≤ kMaxMessage) : frame msg ≠ [] := by
  rw [frame, if_neg (not_lt.mpr h)]
  exact List.cons_ne_nil _ _

theorem Delivery.toDelivered {s : Loop} (h : Delivery s) (hslot : Slot s) (hfit : Framable s) :
    Delivered s := by
  obtain ⟨k, hsent, hqueued⟩ := h
  have hall := hsent.trans hqueued
  have hlt : ∀ {n : ℕ} {resp : Message}, s.answers[n]? = some resp → n < s.answers.length :=
    fun hn => (List.getElem?_eq_some_iff.mp hn).1
  refine ⟨?_, fun n resp hn => ?_, fun n resp hn => hall.packetsOf_eq hn (Nat.zero_le n) (hlt hn),
    fun n resp hn => ?_, fun n hn => hall.packetsOf_eq_nil (.inr hn), hall.inOrder, ?_⟩
  · rcases hcmd : s.inflight.cmd with _ | msg
    · exact (hslot.free hcmd).2
    · exact (hslot.busy msg hcmd).2.1
  · obtain ⟨msg, hmsg, hcid, hsame⟩ := hslot.answered n resp hn
    refine ⟨msg, hmsg, hcid, hsame, frame_ne_nil (hfit.1 resp (List.mem_of_getElem? hn)), ?_⟩
    exact fun r hr => hcid ▸ readCidLe_of_mem_frame hr
  · by_cases hk : n < k
    · exact .inl ⟨hsent.isInfix hn (Nat.zero_le n) hk, hqueued.packetsOf_eq_nil (.inl hk)⟩
    · exact .inr ⟨hqueued.isInfix hn (not_lt.mp hk) (hlt hn),
        hsent.packetsOf_eq_nil (.inr (not_lt.mp hk))⟩
  · intro p hp n hn
    rcases hall.mem_cases p hp with (hown | ⟨_, hown⟩) | ⟨m, msg, hm, hmsg, hcid⟩ | ⟨_, hm, -⟩
    · cases hown.symm.trans hn
    · cases hown.symm.trans hn
    · cases hm.symm.trans hn
      exact ⟨msg, hmsg, hcid⟩
    · cases hm.symm.trans hn

theorem Framable.step {s s' : Loop} {a : Action} (h : Framable s)
    (hfit : ∀ result, a = .finish result → result.payload.length ≤ kMaxMessage)
    (hstep : s.step a = some s') : Framable s' := by
  rcases step_stepped hstep with ⟨p, rest⟩ | ⟨now⟩ | ⟨now⟩ | ⟨r⟩ | ⟨r⟩ | ⟨msg⟩ | ⟨up⟩ |
    ⟨result, n, msg, hworker⟩ | ⟨n, resp, hworker⟩
  · exact h
  · unfold drained
    split_ifs
    · exact h
    · exact h
  · exact h
  · exact h
  · exact h
  · exact ⟨h.1, fun n resp hw => by cases hw⟩
  · exact h
  · refine ⟨h.1, ?_⟩
    rintro _ _ ⟨⟩
    exact hfit result rfl
  · refine ⟨fun m hm => ?_, fun n resp hw => by cases hw⟩
    rcases List.mem_append.mp hm with hm | hm
    · exact h.1 m hm
    · exact List.mem_singleton.mp hm ▸ h.2 n resp hworker

/-- **Delivery.** In every state that any interleaving of the two threads reaches, with a
handler whose responses are never longer than a message may be, responses are delivered as
`Delivered` says. -/
theorem delivered (supportsU2f : Bool) (as : List Action) (s : Loop)
    (hfit : ∀ result, .finish result ∈ as → result.payload.length ≤ kMaxMessage)
    (h : Machine.run step (new supportsU2f) as = some s) : Delivered s := by
  have hinv : Slot s ∧ Delivery s ∧ Framable s := by
    refine Machine.run_induction (I := fun _ s => Slot s ∧ Delivery s ∧ Framable s)
      (P := fun _ a => ∀ result, a = .finish result → result.payload.length ≤ kMaxMessage)
      ⟨slot_new _, ⟨0, .nil, .nil⟩, fun _ hm => (by cases hm), fun _ _ hw => by cases hw⟩ ?_ ?_ h
    · rintro _ s₁ a s₂ - ha hstep ⟨hslot, hdelivery, hframable⟩
      exact ⟨hslot.step hstep, hdelivery.step hslot hstep, hframable.step ha hstep⟩
    · rintro as₁ a as₂ - rfl - result rfl
      exact hfit result (by simp)
  exact hinv.2.1.toDelivered hinv.1 hinv.2.2

/-- A getInfo is answered with a keepalive in between. -/
theorem delivered_getInfo :
    let as := opening 1 ++ getInfo 1 ++ [.take, .drain kKeepaliveInterval, .write,
      .finish (.cbor (.ok [0xA0])), .publish, .poll 0, .read none, .drain 0, .write]
    ∃ s, Machine.run step (new true) as = some s ∧ s.written.map Packet.origin =
      [.reply, .keepalive 0, .response 0] ∧ Delivered s := by
  intro as
  have hsome : (Machine.run step (new true) as).isSome = true := rfl
  have hwritten : (Machine.run step (new true) as).map (fun s => s.written.map Packet.origin) =
    some [.reply, .keepalive 0, .response 0] := rfl
  obtain ⟨s, hs⟩ := Option.isSome_iff_exists.mp hsome
  rw [hs] at hwritten
  refine ⟨s, hs, Option.some.inj hwritten, delivered true as s (fun result hresult => ?_) hs⟩
  simp [as, opening, getInfo, receives] at hresult
  subst hresult
  decide

end Loop

end Swpasskey
