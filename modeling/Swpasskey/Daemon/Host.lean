import Swpasskey.Ctap.Reassembly
import Swpasskey.Daemon.Loop

/-!
# The host

What a host makes of the reports the daemon writes, as the host of the tests does it
(`reassemble` and the helpers beside it): the first report of a message announces its length,
and the reports behind it are taken for the rest of it, unseen, until that many bytes are
there. A host that reads so depends on the daemon never putting anything between the reports
of a message. It never does: what is written is a sequence of whole messages, and those with
a command of the worker are the responses that were published, in order (`Speaks`).
-/

namespace Swpasskey

open HidFramer HidDevice

namespace Host

/-- `cmd_of`. -/
def cmdOf (r : Report) : UInt8 := r.get 4 &&& 0x7F

/-- The loop of `reassemble`: the payload so far, and the reports `next` gives. `none`: they
have not all come. -/
def gather (total : ℕ) (out : Bytes) : List Report → Option (Bytes × List Report)
  | [] => if out.length < total then none else some (out, [])
  | c :: next =>
    if out.length < total then
      gather total (out ++ slice c 5 (min (total - out.length) kContPayload)) next
    else some (out, c :: next)

/-- `reassemble`: the payload of the message that begins with `first`, and the reports behind
it. -/
def reassemble (first : Report) (next : List Report) : Option (Bytes × List Report) :=
  gather (announced first) (slice first 7 (min (announced first) kInitPayload)) next

theorem length_gather {total : ℕ} {out payload : Bytes} {l rest : List Report}
    (h : gather total out l = some (payload, rest)) : rest.length ≤ l.length := by
  induction l generalizing out with
  | nil =>
    rw [gather] at h
    split_ifs at h
    cases h
    exact le_rfl
  | cons c next ih =>
    rw [gather] at h
    split_ifs at h
    · exact (ih h).trans (Nat.le_succ _)
    · cases h
      exact le_rfl

/-- The messages in what was written; a last one that is not complete is left out. -/
def messages : List Report → List Message
  | [] => []
  | first :: next =>
    match h : reassemble first next with
    | none => []
    | some (payload, rest) =>
      have : rest.length ≤ next.length := length_gather h
      ⟨readCidLe first, cmdOf first, payload⟩ :: messages rest
termination_by l => l.length

theorem messages_of_reassemble {first : Report} {next rest : List Report} {payload : Bytes}
    (h : reassemble first next = some (payload, rest)) :
    messages (first :: next) = ⟨readCidLe first, cmdOf first, payload⟩ :: messages rest := by
  rw [messages]
  split
  · rename_i hnone
    cases h.symm.trans hnone
  · rename_i hsome
    cases h.symm.trans hsome
    rfl

theorem messages_of_incomplete {first : Report} {next : List Report}
    (h : reassemble first next = none) : messages (first :: next) = [] := by
  rw [messages]
  split
  · rfl
  · rename_i hsome
    cases h.symm.trans hsome

/-! ### Whole messages -/

section Whole

variable {cid : UInt32} {msg : Message}

theorem gather_done {total : ℕ} {out : Bytes} (h : total ≤ out.length) (l : List Report) :
    gather total out l = some (out, l) := by
  cases l with
  | nil => exact if_neg (not_lt.mpr h)
  | cons c next => exact if_neg (not_lt.mpr h)

/-- The CONT reports of a message bring the rest of its payload. -/
theorem gather_frameCont {seq : UInt8} {out rest : Bytes} {total : ℕ} (l : List Report)
    (htotal : total = out.length + rest.length) :
    gather total out (frameCont cid seq rest ++ l) = some (out ++ rest, l) := by
  -- along the bytes that remain
  induction hn : rest.length using Nat.strong_induction_on generalizing seq out rest with
  | _ n ih =>
  subst hn
  by_cases hnil : rest = []
  · subst hnil
    rw [frameCont, dif_pos rfl, List.append_nil]
    exact gather_done (by rw [htotal, List.length_nil, Nat.add_zero]) l
  have hpos : 0 < rest.length := List.length_pos_iff.mpr hnil
  have hdata : slice (Block.ofPadded kReportSize (writeCidLe cid ++ [seq] ++
      rest.take kContPayload)) 5 (min (total - out.length) kContPayload) =
        rest.take kContPayload := by
    have hfit : (writeCidLe cid ++ [seq] ++ rest.take kContPayload).length ≤ kReportSize := by
      simp only [writeCidLe, List.length_append, List.length_cons, List.length_nil,
        List.length_take, kContPayload, kReportSize]
      omega
    have hlen : min (total - out.length) kContPayload = (rest.take kContPayload).length := by
      rw [htotal, Nat.add_sub_cancel_left, List.length_take, min_comm]
    have hslice := slice_ofPadded hfit hlen.le
    rw [hlen] at hslice ⊢
    rwa [List.take_length] at hslice
  rw [frameCont, dif_neg hnil, List.cons_append, gather, if_pos (by omega), hdata,
    ih (rest.drop kContPayload).length ?_ ?_ rfl, List.append_assoc, List.take_append_drop]
  · simp only [List.length_drop, kContPayload]
    omega
  · simp only [List.length_append, List.length_take, List.length_drop]
    omega

/-- The payload is as long as a message may be. -/
def Fits (m : Message) : Prop := m.payload.length ≤ kMaxMessage

instance (m : Message) : Decidable (Fits m) := inferInstanceAs (Decidable (_ ≤ _))

/-- The host reads a message from its reports, and goes on behind them. -/
theorem messages_frame (hcmd : msg.cmd < 128) (hfit : Fits msg) (l : List Report) :
    messages (frame msg ++ l) = msg :: messages l := by
  obtain ⟨cid, cmd, payload⟩ := msg
  have hle : payload.length ≤ kMaxMessage := hfit
  obtain ⟨-, hmask, -⟩ := typeInit_bits hcmd
  have hframe : ∃ first, frame ⟨cid, cmd, payload⟩ =
      first :: frameCont cid 0 (payload.drop kInitPayload) ∧ readCidLe first = cid ∧
        cmdOf first = cmd ∧ announced first = payload.length ∧
          slice first 7 (min payload.length kInitPayload) = payload.take kInitPayload := by
    set hdr : Bytes := writeCidLe cid ++ [kTypeInit ||| cmd] ++
      writeU16Be (UInt16.ofNat payload.length) with hhdr
    have hhlen : hdr.length = 7 := rfl
    have hroom : (hdr ++ payload.take kInitPayload).length ≤ kReportSize := by
      simp only [List.length_append, hhlen, List.length_take, kInitPayload, kReportSize]
      omega
    have hget : ∀ i < 7, (Block.ofPadded kReportSize (hdr ++ payload.take kInitPayload)).get i =
        hdr.getD i 0 := by
      intro i hi
      rw [Block.get_ofPadded hroom, List.getD_append _ _ _ _ (by omega)]
    have hcid : ∀ r, r ∈ frame ⟨cid, cmd, payload⟩ → readCidLe r = cid := fun r hr =>
      readCidLe_of_mem_frame hr
    refine ⟨_, if_neg (not_lt.mpr hle), hcid _ ?_, ?_, ?_, ?_⟩
    · rw [frame, if_neg (not_lt.mpr hle)]
      exact List.mem_cons_self
    · rw [cmdOf, hget 4 (by omega)]
      exact hmask
    · rw [announced, hget 5 (by omega), hget 6 (by omega)]
      refine (congrArg UInt16.toNat (readU16Be_writeU16Be _)).trans ?_
      simp only [kMaxMessage] at hle
      simp only [UInt16.toNat_ofNat', Nat.reducePow]
      omega
    · rw [← hhlen, slice_ofPadded hroom (by simp [min_comm])]
      exact List.take_of_length_le (by simp [min_comm])
  obtain ⟨first, hfirst, hcid, hcmd, htotal, hdata⟩ := hframe
  rw [hfirst, List.cons_append]
  have hread : reassemble first (frameCont cid 0 (payload.drop kInitPayload) ++ l) =
      some (payload, l) := by
    rw [reassemble, htotal, hdata, gather_frameCont l, List.take_append_drop]
    rw [List.length_take, List.length_drop]
    omega
  rw [messages_of_reassemble hread, hcid, hcmd]

/-- A message that is too long is never written. -/
theorem frame_of_not_fits (h : ¬ Fits msg) : frame msg = [] := if_pos (not_le.mp h)

/-- The reports of some messages are read as those messages. -/
theorem messages_flatMap_frame {ms : List Message} (h : ∀ m ∈ ms, m.cmd < 128) :
    messages (ms.flatMap frame) = ms.filter Fits := by
  induction ms with
  | nil => rw [List.flatMap_nil, messages, List.filter_nil]
  | cons m ms ih =>
    obtain ⟨hm, hms⟩ := List.forall_mem_cons.mp h
    rw [List.flatMap_cons]
    by_cases hfit : Fits m
    · rw [messages_frame hm hfit, ih hms, List.filter_cons, if_pos (decide_eq_true hfit)]
    · rw [frame_of_not_fits hfit, List.nil_append, ih hms, List.filter_cons,
        if_neg (by simpa using hfit)]

end Whole

/-! ### What has been written so far -/

theorem gather_append {total : ℕ} {out payload : Bytes} {l rest : List Report}
    (h : gather total out l = some (payload, rest)) (l' : List Report) :
    gather total out (l ++ l') = some (payload, rest ++ l') := by
  induction l generalizing out with
  | nil =>
    rw [gather] at h
    split_ifs at h with hlt
    cases h
    exact gather_done (not_lt.mp hlt) l'
  | cons c next ih =>
    rw [gather] at h
    rw [List.cons_append, gather]
    split_ifs at h ⊢
    · exact ih h
    · cases h
      rfl

/-- What is read does not change when more is written. -/
theorem messages_isPrefix (l l' : List Report) : messages l <+: messages (l ++ l') := by
  induction hn : l.length using Nat.strong_induction_on generalizing l with
  | _ n ih =>
  subst hn
  cases l with
  | nil =>
    rw [messages]
    exact List.nil_prefix
  | cons first next =>
    rw [List.cons_append]
    rcases hread : reassemble first next with _ | ⟨payload, rest⟩
    · rw [messages_of_incomplete hread]
      exact List.nil_prefix
    · rw [messages_of_reassemble hread, messages_of_reassemble (gather_append hread l')]
      refine List.cons_prefix_cons.mpr ⟨rfl, ih rest.length ?_ rest rfl⟩
      exact Nat.lt_succ_of_le (length_gather hread)

end Host

/-! ### What the device writes -/

namespace HidDevice

/-- A command of the worker. -/
def ForWorker (m : Message) : Prop := m.cmd = kCmdMsg ∨ m.cmd = kCmdCbor

instance (m : Message) : Decidable (ForWorker m) := inferInstanceAs (Decidable (_ ∨ _))

/-- A message with a command that the worker has nothing to do with. -/
structure Own (m : Message) : Prop where
  cmd : m.cmd < 128
  notForWorker : ¬ ForWorker m

/-- The reports are whole messages of the device's own. -/
def OwnReports (l : List Report) : Prop :=
  ∃ own : List Message, l = own.flatMap frame ∧ ∀ m ∈ own, Own m

theorem OwnReports.nil : OwnReports [] := ⟨[], rfl, fun _ hm => absurd hm List.not_mem_nil⟩

theorem OwnReports.frame {m : Message} (h : Own m) : OwnReports (frame m) :=
  ⟨[m], (List.flatMap_singleton _ _).symm, fun _ hm => List.mem_singleton.mp hm ▸ h⟩

theorem own_of_mem {cid : UInt32} {cmd : UInt8} {payload : Bytes}
    (h : cmd ∈ [kCmdPing, kCmdInit, kCmdWink, kCmdKeepalive, kCmdError]) :
    Own ⟨cid, cmd, payload⟩ := by
  have hall : ([kCmdPing, kCmdInit, kCmdWink, kCmdKeepalive, kCmdError].all fun cmd =>
      decide (cmd < 128 ∧ ¬ (cmd = kCmdMsg ∨ cmd = kCmdCbor))) = true := by decide
  have hcmd : cmd < 128 ∧ ¬ (cmd = kCmdMsg ∨ cmd = kCmdCbor) :=
    of_decide_eq_true (List.all_eq_true.mp hall cmd h)
  exact ⟨hcmd.1, hcmd.2⟩

/-- A report with one byte of payload is a message. -/
theorem frame_status (cid : UInt32) (cmd status : UInt8) :
    frame ⟨cid, cmd, [status]⟩ = [statusPacket cid cmd status] := by
  have hshort : ¬ [status].length > kMaxMessage := (by decide : ¬ 1 > kMaxMessage)
  have hcont : frameCont cid 0 ([status].drop kInitPayload) = [] := by
    rw [frameCont]
    exact dif_pos rfl
  have hbcnt : writeU16Be (UInt16.ofNat [status].length) = [0, 1] :=
    (by decide : writeU16Be (UInt16.ofNat 1) = [0, 1])
  refine (if_neg hshort).trans ?_
  dsimp only
  rw [hcont, hbcnt, List.append_assoc, List.append_assoc]
  rfl

theorem ownReports_status {cid : UInt32} {cmd : UInt8} (status : UInt8)
    (h : cmd = kCmdKeepalive ∨ cmd = kCmdError) : OwnReports [statusPacket cid cmd status] := by
  rw [← frame_status]
  refine OwnReports.frame (own_of_mem ?_)
  rcases h with rfl | rfl <;> decide

theorem ownReports_fail (cid : UInt32) (e : HidErr) : OwnReports (fail cid e).reply :=
  ownReports_status _ (.inr rfl)

theorem ownReports_initResponse (d : HidDevice) (cid assigned : UInt32) {nonce : Bytes}
    (h : nonce.length = 8) : OwnReports (d.initResponse cid nonce assigned) := by
  set payload := nonce ++ writeCidLe assigned ++ [kHidVersion, 0, 1, 0, d.caps] with hpayload
  have hlen : payload.length = 17 := by rw [hpayload]; simp [h, writeCidLe]
  -- all of the payload is in the INIT report
  have hone : (frame ⟨cid, kCmdInit, payload⟩).take 1 = frame ⟨cid, kCmdInit, payload⟩ := by
    have hnil : payload.drop kInitPayload = [] := List.drop_eq_nil_of_le (by rw [hlen]; decide)
    rw [frame, if_neg (by rw [hlen]; decide), hnil, frameCont, dif_pos rfl]
    rfl
  have hinit : kCmdInit ∈ [kCmdPing, kCmdInit, kCmdWink, kCmdKeepalive, kCmdError] := by decide
  rw [initResponse, hone]
  exact OwnReports.frame (own_of_mem hinit)

section Replies

variable {d d' : HidDevice} {r : Report} {msg : Message} {inflight : Option UInt32} {now : ℕ}
  {draws : List (Option UInt32)} {ing : Ingest}

theorem ownReports_execute (d : HidDevice) (msg : Message) (inflight : Option UInt32) :
    OwnReports (d.execute msg inflight).reply := by
  obtain ⟨cid, cmd, payload⟩ := msg
  unfold execute
  split_ifs with hping
  · obtain rfl : cmd = kCmdPing := hping
    exact OwnReports.frame (own_of_mem (by decide))
  · have hwink : kCmdWink ∈ [kCmdPing, kCmdInit, kCmdWink, kCmdKeepalive, kCmdError] := by decide
    dsimp only
    exact OwnReports.frame (own_of_mem hwink)
  · exact OwnReports.nil
  · exact ownReports_fail _ _
  · exact ownReports_fail _ _
  · exact OwnReports.nil
  · exact ownReports_fail _ _

theorem ownReports_dispatch (d : HidDevice) (msg : Message) (inflight : Option UInt32) (now : ℕ) :
    OwnReports (d.dispatch msg inflight now).1.reply := by
  unfold dispatch
  split_ifs with hinit hlen
  · exact ownReports_fail _ _
  · exact ownReports_initResponse _ _ _ (not_not.mp hlen)
  · exact ownReports_fail _ _
  · exact ownReports_fail _ _
  · exact ownReports_execute _ _ _

/-- The answers to a report are whole messages. -/
theorem ownReports_ingest (h : d.ingest r inflight now draws = some (ing, d')) :
    OwnReports ing.reply := by
  unfold ingest at h
  split_ifs at h
  · cases h
    exact ownReports_fail _ _
  · obtain ⟨⟨assigned, d₁⟩, -, heq⟩ := Option.map_eq_some_iff.mp h
    cases heq
    exact ownReports_initResponse _ _ _ (length_slice r (by decide))
  · obtain rfl : (d.receive r inflight now).1 = ing := congrArg Prod.fst (Option.some.inj h)
    unfold receive
    split
    · exact ownReports_fail _ _
    · exact OwnReports.nil
    · exact ownReports_dispatch _ _ _ _

theorem ownReports_pollTimeout (d : HidDevice) (now : ℕ) :
    OwnReports (d.pollTimeout now).1.toList := by
  unfold pollTimeout
  split
  · split_ifs
    · exact OwnReports.nil
    · exact ownReports_status _ (.inr rfl)
  · exact OwnReports.nil

end Replies

end HidDevice

namespace Loop

/-! ### What the two threads write -/

/-- What has been written and will be written are whole messages: first those sent, then those
in the outbox. Those with a command of the worker are the responses published so far. -/
structure Speaks (s : Loop) (sent queued : List Message) : Prop where
  written : (s.written ++ s.batch).map Packet.report = sent.flatMap frame
  outbox : s.outbox.map Packet.report = queued.flatMap frame
  cmd : ∀ m ∈ sent ++ queued, m.cmd < 128
  answers : (sent ++ queued).filter ForWorker = s.answers

/-- Every command that was admitted is one of the worker. -/
def Commands (s : Loop) : Prop := ∀ m ∈ s.admitted, ForWorker m

section Steps

variable {s s' : Loop} {a : Action} {ing : Ingest} {d : HidDevice} {sent queued : List Message}

theorem map_report_responsePackets (n : ℕ) (resp : Message) :
    (responsePackets n resp).map Packet.report = frame resp := by
  rw [responsePackets, List.map_map]
  exact List.map_id' _

/-- More of the device's own reports are written. -/
theorem Speaks.own {t : Loop} (h : Speaks s sent queued) (hbatch : s.batch = []) {l : List Packet}
    (hl : OwnReports (l.map Packet.report)) (hwritten : t.written = s.written)
    (hnew : t.batch = l) (houtbox : t.outbox = s.outbox) (hanswers : t.answers = s.answers) :
    ∃ sent', Speaks t sent' queued := by
  obtain ⟨own, hown, hall⟩ := hl
  have hnone : own.filter ForWorker = [] :=
    List.filter_eq_nil_iff.mpr fun m hm => by simpa using (hall m hm).notForWorker
  refine ⟨sent ++ own, ?_, ?_, fun m hm => ?_, ?_⟩
  · have hsent := h.written
    rw [hbatch, List.append_nil] at hsent
    rw [hwritten, hnew, List.map_append, hsent, hown, List.flatMap_append]
  · rw [houtbox, h.outbox]
  · rw [List.append_assoc, List.mem_append, List.mem_append] at hm
    rcases hm with hm | hm | hm
    · exact h.cmd m (List.mem_append_left _ hm)
    · exact (hall m hm).cmd
    · exact h.cmd m (List.mem_append_right _ hm)
  · rw [hanswers, ← h.answers, List.filter_append, List.filter_append, List.filter_append, hnone,
      List.append_nil]

theorem Speaks.drained (h : Speaks s sent queued) (hbatch : s.batch = []) (now : ℕ) :
    ∃ sent', Speaks (s.drained now) sent' [] := by
  -- the whole outbox is taken first
  have hall : Speaks { s with outbox := [], batch := s.outbox } (sent ++ queued) [] := by
    refine ⟨?_, rfl, ?_, ?_⟩
    · have hsent := h.written
      rw [hbatch, List.append_nil] at hsent
      rw [List.map_append, hsent, h.outbox, List.flatMap_append]
    · rw [List.append_nil]
      exact h.cmd
    · rw [List.append_nil]
      exact h.answers
  unfold Loop.drained
  split_ifs
  · set s₁ : Loop := { s with outbox := [], written := s.written ++ s.outbox } with hs₁
    have h₁ : Speaks s₁ (sent ++ queued) [] :=
      ⟨by rw [hs₁, ← hall.written]; simp [hbatch], rfl, hall.cmd, hall.answers⟩
    set p : Packet := ⟨.keepalive s.inflight.number,
      keepalivePacket s.inflight.cid s.inflight.token.keepalive⟩ with hp
    obtain ⟨sent', h'⟩ := h₁.own (t := { s₁ with batch := [p] }) (l := [p]) hbatch
      (ownReports_status _ (.inl rfl)) rfl rfl rfl rfl
    exact ⟨sent', by rw [← h'.written]; simp [hs₁], rfl, h'.cmd, h'.answers⟩
  · exact ⟨_, hall.written, rfl, hall.cmd, hall.answers⟩

theorem Speaks.published (h : Speaks s sent queued) {n : ℕ} {resp : Message}
    (hresp : ForWorker resp) : Speaks (s.published n resp) sent (queued ++ [resp]) := by
  refine ⟨h.written, ?_, fun m hm => ?_, ?_⟩
  · rw [Loop.published]
    dsimp only
    rw [List.map_append, map_report_responsePackets, h.outbox, List.flatMap_append,
      List.flatMap_singleton]
  · rw [← List.append_assoc] at hm
    rcases List.mem_append.mp hm with hm | hm
    · exact h.cmd m hm
    · rw [List.mem_singleton.mp hm]
      rcases hresp with hcmd | hcmd <;> rw [hcmd] <;> decide
  · rw [← List.append_assoc, List.filter_append, h.answers,
      List.filter_cons_of_pos (by simpa using hresp), List.filter_nil]
    rfl

theorem Speaks.step (h : Speaks s sent queued) (hslot : Slot s) (hcommands : Commands s)
    (hstep : s.step a = some s') : ∃ sent' queued', Speaks s' sent' queued' := by
  rcases step_stepped hstep with ⟨p, rest, hbatch⟩ | ⟨now, -, hbatch⟩ | ⟨now, -, hbatch⟩ | ⟨r⟩ |
    ⟨r, now, draws, started, ing, d, -, hbatch, hing⟩ | ⟨msg⟩ | ⟨up⟩ | ⟨result⟩ | ⟨n, resp, hworker⟩
  · refine ⟨sent, queued, ?_, h.outbox, h.cmd, h.answers⟩
    rw [← h.written, hbatch]
    simp
  · obtain ⟨sent', h'⟩ := h.drained hbatch now
    exact ⟨sent', [], h'⟩
  · obtain ⟨sent', h'⟩ := h.own (t := { s with
      hid := .read
      device := (s.device.pollTimeout now).2
      batch := (s.device.pollTimeout now).1.toList.map fun r => ⟨.reply, r⟩ }) hbatch
      (by rw [List.map_map, show Packet.report ∘ Packet.mk .reply = id from rfl, List.map_id]
          exact ownReports_pollTimeout s.device now) rfl rfl rfl rfl
    exact ⟨sent', queued, h'⟩
  · exact ⟨sent, queued, h.written, h.outbox, h.cmd, h.answers⟩
  · obtain ⟨sent', h'⟩ := h.own (t := s.ingested r ing d started) hbatch (l := ing.reply.map
      fun p => ⟨replyOrigin s.device r s.admitted.length, p⟩)
      (by rw [List.map_map, show Packet.report ∘ Packet.mk
            (replyOrigin s.device r s.admitted.length) = id from rfl, List.map_id]
          exact ownReports_ingest hing) rfl rfl rfl rfl
    exact ⟨sent', queued, h'⟩
  · exact ⟨sent, queued, h.written, h.outbox, h.cmd, h.answers⟩
  · exact ⟨sent, queued, h.written, h.outbox, h.cmd, h.answers⟩
  · exact ⟨sent, queued, h.written, h.outbox, h.cmd, h.answers⟩
  · refine ⟨sent, queued ++ [resp], h.published ?_⟩
    obtain ⟨msg, hcmd, -, -, hsame⟩ := hslot.publishing n resp hworker
    obtain ⟨-, -, hmsg, -⟩ := hslot.busy msg hcmd
    have hforWorker := hcommands msg (List.mem_of_getElem? hmsg)
    rw [ForWorker] at hforWorker ⊢
    rwa [hsame]

theorem Commands.step (h : Commands s) (hstep : s.step a = some s') : Commands s' := by
  rcases step_stepped hstep with ⟨p⟩ | ⟨now⟩ | ⟨now⟩ | ⟨r⟩ |
    ⟨r, now, draws, started, ing, d, -, hbatch, hing⟩ | ⟨msg⟩ | ⟨up⟩ | ⟨result⟩ | ⟨n⟩
  · exact h
  · unfold Loop.drained
    split_ifs
    · exact h
    · exact h
  · exact h
  · exact h
  · intro m hm
    rcases List.mem_append.mp hm with hm | hm
    · exact h m hm
    · rcases ingest_handled hing with _ | _ | _ | _ | _ | _ | ⟨msg, -, -, hcmd⟩
      all_goals try exact absurd hm List.not_mem_nil
      exact List.mem_singleton.mp hm ▸ hcmd
  · exact h
  · exact h
  · exact h
  · exact h

/-- **What a host reads** of the worker's responses are the responses published so far, in order
and whole, but for those too long to be written; none is missing once nothing waits to be
written. -/
theorem Speaks.messages (h : Speaks s sent queued) :
    (Host.messages (s.written.map Packet.report)).filter ForWorker <+:
        s.answers.filter Host.Fits ∧
      (s.batch = [] → s.outbox = [] →
        (Host.messages (s.written.map Packet.report)).filter ForWorker =
          s.answers.filter Host.Fits) := by
  have hsent : Host.messages ((s.written ++ s.batch).map Packet.report) =
      sent.filter Host.Fits := by
    rw [h.written]
    exact Host.messages_flatMap_frame fun m hm => h.cmd m (List.mem_append_left _ hm)
  have hcomm : ∀ l : List Message, (l.filter Host.Fits).filter ForWorker =
      (l.filter ForWorker).filter Host.Fits := fun l => by
    rw [List.filter_filter, List.filter_filter]
    exact List.filter_congr fun m _ => Bool.and_comm _ _
  rw [← h.answers, ← hcomm, List.filter_append, List.filter_append]
  constructor
  · have hstart := Host.messages_isPrefix (s.written.map Packet.report) (s.batch.map Packet.report)
    rw [← List.map_append, hsent] at hstart
    exact (hstart.filter _).trans (List.prefix_append _ _)
  · intro hbatch houtbox
    rw [hbatch, List.append_nil] at hsent
    have hqueued : queued.filter Host.Fits = [] := by
      refine List.filter_eq_nil_iff.mpr fun m hm hfit => ?_
      have hreports : queued.flatMap frame = [] := by rw [← h.outbox, houtbox, List.map_nil]
      have hnil := List.flatMap_eq_nil_iff.mp hreports m hm
      rw [frame, if_neg (not_lt.mpr (of_decide_eq_true hfit))] at hnil
      exact List.cons_ne_nil _ _ hnil
    rw [hsent, hqueued, List.filter_nil, List.append_nil]

end Steps

end Loop

end Swpasskey
