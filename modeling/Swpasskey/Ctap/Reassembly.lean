import Swpasskey.Ctap.HidFramer

/-!
# Reassembly

What the framer makes of an arbitrary sequence of calls: reports on any channels and in any
order, and in between `cancel` and `on_timeout`.

A **transaction** is what the history of calls must look like for a message to be in progress: an
INIT report, then on the same channel nothing but CONT reports numbered from `0`. The framer's
assembly always belongs to a transaction, and holds exactly its data (`afterAll_tracks`, one case
for each way a call can go). So a message is delivered only out of a transaction, and its payload
is the first BCNT bytes of the transaction's data.
-/

namespace Swpasskey

namespace HidFramer

/-! ### Calls -/

/-- `HidFramer::cancel`. -/
def cancel (f : HidFramer) (cid : UInt32) : HidFramer :=
  if f.assembly.any fun a => a.cid = cid then ⟨none⟩ else f

/-- `HidFramer::on_timeout`. -/
def onTimeout (f : HidFramer) : Option HidErr × HidFramer :=
  if f.assembly.isSome then (some .msgTimeout, ⟨none⟩) else (none, f)

/-- A call of the framer. -/
inductive Call
  | report (r : Report)
  | cancel (cid : UInt32)
  | timeout

/-- The framer after a call. -/
def after (f : HidFramer) : Call → HidFramer
  | .report r => (f.ingest r).2
  | .cancel cid => f.cancel cid
  | .timeout => f.onTimeout.2

/-- What a new framer has become after these calls. -/
def afterAll (calls : List Call) : HidFramer := calls.foldl after {}

theorem afterAll_concat (calls : List Call) (c : Call) :
    afterAll (calls ++ [c]) = (afterAll calls).after c :=
  List.foldl_concat _ _ _ _

/-! ### Transactions -/

/-- The payload length an INIT report announces: BCNT. -/
def bcnt (r : Report) : UInt16 := readU16Be (r.get 5) (r.get 6)

/-- The data area of an INIT report. -/
def initData (r : Report) : Bytes := slice r 7 kInitPayload

/-- The data area of a CONT report. -/
def contData (r : Report) : Bytes := slice r 5 kContPayload

/-- The data of an INIT report and the CONT reports that follow it. -/
def data (init : Report) (conts : List Report) : Bytes := initData init ++ conts.flatMap contData

/-- The report of a call, when it is on the channel. -/
def Call.reportOn (cid : UInt32) : Call → Option Report
  | .report r => if readCidLe r = cid then some r else none
  | _ => none

/-- The history ends in a message in progress: `init` opened it, `conts` are all the reports of
its channel since, and nothing has aborted it. -/
structure Transaction (calls : List Call) (init : Report) (conts : List Report) : Prop where
  since : ∃ before since, calls = before ++ .report init :: since ∧
    since.filterMap (Call.reportOn (readCidLe init)) = conts ∧
      .timeout ∉ since ∧ .cancel (readCidLe init) ∉ since
  cid_ne : readCidLe init ≠ 0
  isInit : init.get 4 &&& kTypeInit ≠ 0
  isCont : ∀ r ∈ conts, r.get 4 &&& kTypeInit = 0
  numbered : conts.map (fun r => (r.get 4).toNat) = List.range conts.length

/-- The message is the first BCNT bytes of the transaction's data, and there are that many. -/
structure Delivers (init : Report) (conts : List Report) (msg : Message) : Prop where
  cid : msg.cid = readCidLe init
  cmd : msg.cmd = init.get 4 &&& 0x7F
  bcnt_le : (bcnt init).toNat ≤ kMaxMessage
  payload : msg.payload = (data init conts).take (bcnt init).toNat
  length_payload : msg.payload.length = (bcnt init).toNat

/-- What holds of the assembly between two calls: the subtraction of the buffer's length from
BCNT and the increment of the sequence number do not wrap. -/
structure Bounded (a : Assembly) : Prop where
  bcnt_le : a.bcnt.toNat ≤ 7609
  length_buf : a.buf.length = 57 + 59 * a.nextSeq.toNat
  length_lt : a.buf.length < a.bcnt.toNat
  seq_le : a.nextSeq.toNat ≤ 127

namespace Transaction

variable {calls : List Call} {init r : Report} {conts : List Report} {c : Call}

theorem opened (hcid : readCidLe r ≠ 0) (hinit : r.get 4 &&& kTypeInit ≠ 0) :
    Transaction (calls ++ [.report r]) r [] where
  since := ⟨calls, [], rfl, rfl, by simp, by simp⟩
  cid_ne := hcid
  isInit := hinit
  isCont _ h := by cases h
  numbered := rfl

/-- A call that does not concern the channel. -/
theorem other (h : Transaction calls init conts) (hreport : c.reportOn (readCidLe init) = none)
    (htimeout : c ≠ .timeout) (hcancel : c ≠ .cancel (readCidLe init)) :
    Transaction (calls ++ [c]) init conts := by
  obtain ⟨before, since, rfl, hconts, hno, hno'⟩ := h.since
  refine { h with since := ⟨before, since ++ [c], by simp, ?_, ?_, ?_⟩ }
  · simp [hconts, hreport]
  · simpa [hno] using Ne.symm htimeout
  · simpa [hno'] using Ne.symm hcancel

/-- The next CONT report. -/
theorem continued (h : Transaction calls init conts) (hcid : readCidLe r = readCidLe init)
    (hcont : r.get 4 &&& kTypeInit = 0) (hseq : (r.get 4).toNat = conts.length) :
    Transaction (calls ++ [.report r]) init (conts ++ [r]) := by
  obtain ⟨before, since, rfl, hconts, hno, hno'⟩ := h.since
  refine { h with
    since := ⟨before, since ++ [.report r], by simp, ?_, by simpa using hno, by simpa using hno'⟩
    isCont := ?_
    numbered := ?_ }
  · simp [hconts, Call.reportOn, hcid]
  · intro x hx
    rcases List.mem_append.mp hx with hx | hx
    · exact h.isCont x hx
    · rw [List.mem_singleton.mp hx]
      exact hcont
  · rw [List.map_append, h.numbered, List.length_append, List.length_singleton, List.range_succ]
    simp [hseq]

end Transaction

/-! ### One report -/

/-- The assembly `a` with the data that a CONT report has room for. -/
def extended (a : Assembly) (r : Report) : Bytes :=
  a.buf ++ slice r 5 (min (a.bcnt.toNat - a.buf.length) kContPayload)

/-- Everything a report can do. -/
inductive Step (f : HidFramer) (r : Report) : Except HidErr (Option Message) × HidFramer → Prop
  /-- It is refused and changes nothing: it is not on the channel of the assembly. -/
  | refused (e : HidErr) (h : ∀ a, f.assembly = some a → a.cid = readCidLe r → readCidLe r = 0) :
      Step f r (.error e, f)
  /-- The assembly is dropped. -/
  | dropped (e : HidErr) : Step f r (.error e, {})
  /-- An INIT report whose message is longer. -/
  | opened (hcid : readCidLe r ≠ 0) (hinit : r.get 4 &&& kTypeInit ≠ 0)
      (hle : (bcnt r).toNat ≤ kMaxMessage) (hlong : kInitPayload < (bcnt r).toNat) :
      Step f r (.ok none, ⟨some ⟨readCidLe r, r.get 4 &&& 0x7F, bcnt r, 0, initData r⟩⟩)
  /-- An INIT report that holds the whole message. -/
  | single (hcid : readCidLe r ≠ 0) (hinit : r.get 4 &&& kTypeInit ≠ 0)
      (hshort : (bcnt r).toNat ≤ kInitPayload) :
      Step f r (.ok (some ⟨readCidLe r, r.get 4 &&& 0x7F, (initData r).take (bcnt r).toNat⟩), {})
  /-- The next CONT report, and there are more to come. -/
  | continued (a : Assembly) (ha : f.assembly = some a) (hcid : a.cid = readCidLe r)
      (hcont : r.get 4 &&& kTypeInit = 0) (hseq : r.get 4 = a.nextSeq)
      (hlast : ¬ a.nextSeq + 1 > 127)
      (hlt : (extended a r).length < a.bcnt.toNat) :
      Step f r (.ok none, ⟨some { a with nextSeq := a.nextSeq + 1, buf := extended a r }⟩)
  /-- The last CONT report. -/
  | finished (a : Assembly) (ha : f.assembly = some a) (hcid : a.cid = readCidLe r)
      (hcont : r.get 4 &&& kTypeInit = 0) (hseq : r.get 4 = a.nextSeq)
      (hge : a.bcnt.toNat ≤ (extended a r).length) :
      Step f r (.ok (some ⟨a.cid, a.cmd, (extended a r).take a.bcnt.toNat⟩), {})

theorem length_slice (r : Report) {off take : ℕ} (h : off + take ≤ kReportSize) :
    (slice r off take).length = take := by
  rw [slice, List.length_take, List.length_drop, Block.length_bytes]
  omega

theorem length_initData (r : Report) : (initData r).length = 57 := length_slice r (by decide)

theorem length_contData (r : Report) : (contData r).length = 59 := length_slice r (by decide)

/-- A shorter part of the data area. -/
theorem slice_eq_take (r : Report) (off : ℕ) {k n : ℕ} (h : k ≤ n) :
    slice r off k = (slice r off n).take k := by
  rw [slice, slice, List.take_take, min_eq_left h]

/-- What an INIT report of a channel that is free to send does. -/
theorem ingest_step_init {f : HidFramer} {r : Report} (hcid : readCidLe r ≠ 0)
    (hinit : r.get 4 &&& kTypeInit ≠ 0) : Step f r (f.ingest r) := by
  unfold ingest
  rw [if_neg hcid, if_pos hinit]
  dsimp only
  by_cases hbusy : (f.assembly.any fun a => a.cid ≠ readCidLe r) = true
  · rw [if_pos hbusy]
    refine .refused _ fun a ha hsame => ?_
    simp [ha, hsame] at hbusy
  rw [if_neg hbusy]
  by_cases hlong : (bcnt r).toNat > kMaxMessage
  · exact (if_pos hlong) ▸ .dropped _
  rw [if_neg (show ¬ (readU16Be (r.get 5) (r.get 6)).toNat > kMaxMessage from hlong)]
  change Step f r (if (slice r 7 (min (bcnt r).toNat kInitPayload)).length ≥ (bcnt r).toNat then
    (.ok (some ⟨_, _, (slice r 7 (min (bcnt r).toNat kInitPayload)).take (bcnt r).toNat⟩), ⟨none⟩)
    else (.ok none, ⟨some ⟨_, _, bcnt r, 0, slice r 7 (min (bcnt r).toNat kInitPayload)⟩⟩))
  rw [length_slice r (by simp only [kInitPayload, kReportSize]; omega)]
  by_cases hshort : (bcnt r).toNat ≤ kInitPayload
  · -- the message fits the report
    have hdata : (slice r 7 (min (bcnt r).toNat kInitPayload)).take (bcnt r).toNat =
        (initData r).take (bcnt r).toNat := by
      rw [min_eq_left hshort, slice_eq_take r 7 hshort, List.take_take, min_self]
      rfl
    rw [if_pos (by rw [min_eq_left hshort]), hdata]
    exact .single hcid hinit hshort
  · have hlt : kInitPayload < (bcnt r).toNat := not_le.mp hshort
    rw [min_eq_right hlt.le, if_neg (not_le.mpr hlt)]
    exact .opened hcid hinit (not_lt.mp hlong) hlt

/-- What a CONT report does. -/
theorem ingest_step_cont {f : HidFramer} {r : Report} (hcid : readCidLe r ≠ 0)
    (hcont : r.get 4 &&& kTypeInit = 0) : Step f r (f.ingest r) := by
  unfold ingest
  rw [if_neg hcid, if_neg (not_not.mpr hcont)]
  rcases ha : f.assembly with _ | a
  · refine .refused _ fun a ha' _ => ?_
    rw [ha] at ha'
    cases ha'
  dsimp only
  by_cases hother : a.cid ≠ readCidLe r
  · rw [if_pos hother]
    refine .refused _ fun b hb hsame => ?_
    cases ha.symm.trans hb
    exact absurd hsame hother
  rw [if_neg hother]
  have hown : a.cid = readCidLe r := not_not.mp hother
  by_cases hseq : r.get 4 ≠ a.nextSeq
  · rw [if_pos hseq]
    exact .dropped _
  rw [if_neg hseq]
  by_cases hlast : a.nextSeq + 1 > 127
  · rw [if_pos hlast]
    exact .dropped _
  rw [if_neg hlast]
  by_cases hge : (extended a r).length ≥ a.bcnt.toNat
  · exact (if_pos hge) ▸ .finished a ha hown hcont (not_not.mp hseq) hge
  · exact (if_neg hge) ▸ .continued a ha hown hcont (not_not.mp hseq) hlast (not_le.mp hge)

theorem ingest_step (f : HidFramer) (r : Report) : Step f r (f.ingest r) := by
  by_cases hcid : readCidLe r = 0
  · unfold ingest
    rw [if_pos hcid]
    exact .refused _ fun _ _ _ => hcid
  by_cases hinit : r.get 4 &&& kTypeInit ≠ 0
  · exact ingest_step_init hcid hinit
  · exact ingest_step_cont hcid (not_not.mp hinit)

/-! ### The assembly and the history -/

/-- The assembly belongs to a transaction of the history, and holds all its data. -/
structure Tracks (calls : List Call) (a : Assembly) : Prop extends Bounded a where
  history : ∃ init conts, Transaction calls init conts ∧ a.cid = readCidLe init ∧
    a.cmd = init.get 4 &&& 0x7F ∧ a.bcnt = bcnt init ∧ a.nextSeq.toNat = conts.length ∧
      a.buf = data init conts

variable {calls : List Call} {f : HidFramer} {r : Report} {a : Assembly} {msg : Message}

theorem kTypeInit_of_lt {b : UInt8} (h : b.toNat ≤ 127) : b &&& kTypeInit = 0 :=
  (typeInit_bits (UInt8.lt_iff_toNat_lt.mpr (Nat.lt_succ_of_le h))).2.2

/-- A report of another channel leaves the assembly and its transaction alone. -/
theorem Tracks.other (h : Tracks calls a) (hcid : a.cid = readCidLe r → readCidLe r = 0) :
    Tracks (calls ++ [.report r]) a := by
  obtain ⟨init, conts, htrans, hinit, hrest⟩ := h.history
  refine { h with history := ⟨init, conts, htrans.other ?_ (by simp) (by simp), hinit, hrest⟩ }
  rw [Call.reportOn, if_neg]
  intro hsame
  exact htrans.cid_ne (hsame ▸ hcid (hinit.trans hsame.symm))

/-- The buffer with the data of one more report, when that is not the end. -/
theorem extended_eq (hlt : (extended a r).length < a.bcnt.toNat) :
    extended a r = a.buf ++ contData r := by
  have hlen : (extended a r).length =
      a.buf.length + min (a.bcnt.toNat - a.buf.length) kContPayload := by
    rw [extended, List.length_append, length_slice r
      (by simp only [kContPayload, kReportSize]; omega)]
  have hmin : min (a.bcnt.toNat - a.buf.length) kContPayload = kContPayload := by
    simp only [kContPayload] at hlen ⊢
    omega
  rw [extended, hmin]
  rfl

theorem Tracks.ingest (h : ∀ a, f.assembly = some a → Tracks calls a)
    (ha : (f.ingest r).2.assembly = some a) : Tracks (calls ++ [.report r]) a := by
  generalize hout : f.ingest r = out at ha
  cases hout ▸ ingest_step f r with
  | refused e hother => exact (h a ha).other (hother a ha)
  | dropped e => cases ha
  | opened hcid hinit hle hlong =>
    cases ha
    refine ⟨⟨hle, length_initData r, (length_initData r).trans_lt hlong, by simp⟩, r, [], ?_⟩
    exact ⟨.opened hcid hinit, rfl, rfl, rfl, rfl, by simp [data]⟩
  | single hcid hinit hshort => cases ha
  | continued b hb hcid hcont hseq hlast hlt =>
    cases ha
    obtain ⟨⟨hle, hlen, -, hseqle⟩, init, conts, htrans, hinit, hcmd, hbcnt, hnum, hbuf⟩ := h b hb
    have hext := extended_eq hlt
    have hnext : (b.nextSeq + 1).toNat = b.nextSeq.toNat + 1 := by
      rw [UInt8.toNat_add, UInt8.toNat_one]
      omega
    have hle127 : (b.nextSeq + 1).toNat ≤ 127 := UInt8.le_iff_toNat_le.mp (UInt8.not_lt.mp hlast)
    refine ⟨⟨hle, ?_, hlt, hle127⟩, init, conts ++ [r], ?_, hinit, hcmd, hbcnt, ?_, ?_⟩
    · dsimp only
      rw [hext, List.length_append, length_contData, hlen, hnext]
      omega
    · exact htrans.continued (hcid.symm.trans hinit) hcont (hseq ▸ hnum)
    · rw [List.length_append, List.length_singleton, ← hnum]
      exact hnext
    · rw [data, List.flatMap_append, List.flatMap_singleton, ← List.append_assoc, ← data, ← hbuf]
      exact hext
  | finished b hb hcid hcont hseq hge => cases ha

theorem Tracks.after {c : Call} (h : ∀ a, f.assembly = some a → Tracks calls a)
    (ha : (f.after c).assembly = some a) : Tracks (calls ++ [c]) a := by
  cases c with
  | report r => exact Tracks.ingest h ha
  | timeout =>
    rw [HidFramer.after, onTimeout] at ha
    split_ifs at ha with hsome
    rw [ha] at hsome
    exact absurd rfl hsome
  | cancel cid =>
    rw [HidFramer.after, HidFramer.cancel] at ha
    split_ifs at ha with hsame
    have hne : a.cid ≠ cid := by simpa [ha] using hsame
    obtain ⟨init, conts, htrans, hinit, hrest⟩ := (h a ha).history
    refine { h a ha with history := ⟨init, conts, htrans.other rfl (by simp) ?_, hinit, hrest⟩ }
    rintro ⟨⟩
    exact hne hinit

/-- **The run.** Whatever the calls, the assembly is bounded and belongs to a transaction. -/
theorem afterAll_tracks (calls : List Call) :
    ∀ a, (afterAll calls).assembly = some a → Tracks calls a := by
  induction calls using List.reverseRecOn with
  | nil => rintro a ⟨⟩
  | append_singleton calls c ih =>
    intro a ha
    rw [afterAll_concat] at ha
    exact Tracks.after ih ha

/-- A message comes out of a transaction whose last report has just arrived. -/
theorem delivers_of_ingest (h : ∀ a, f.assembly = some a → Tracks calls a)
    (hmsg : (f.ingest r).1 = .ok (some msg)) :
    ∃ init conts, Transaction (calls ++ [.report r]) init conts ∧ Delivers init conts msg := by
  generalize hout : f.ingest r = out at hmsg
  cases hout ▸ ingest_step f r with
  | refused e hother => cases hmsg
  | dropped e => cases hmsg
  | opened hcid hinit hle hlong => cases hmsg
  | continued b hb hcid hcont hseq hlast hlt => cases hmsg
  | single hcid hinit hshort =>
    cases hmsg
    have hle : (bcnt r).toNat ≤ kMaxMessage := hshort.trans (by decide)
    refine ⟨r, [], .opened hcid hinit, rfl, rfl, hle, ?_, ?_⟩
    · rw [data, List.flatMap_nil, List.append_nil]
    · rw [List.length_take, length_initData]
      exact min_eq_left hshort
  | finished b hb hcid hcont hseq hge =>
    cases hmsg
    obtain ⟨⟨hle, hlen, hlt, -⟩, init, conts, htrans, hinit, hcmd, hbcnt, hnum, hbuf⟩ := h b hb
    refine ⟨init, conts ++ [r],
      htrans.continued (hcid.symm.trans hinit) hcont (hseq ▸ hnum), hinit, hcmd, ?_, ?_, ?_⟩
    · exact hbcnt ▸ hle
    · -- the buffer is the transaction's data, but for what the last report has too much
      have hcut : extended b r = b.buf ++ (contData r).take (b.bcnt.toNat - b.buf.length) := by
        rw [extended, slice_eq_take r 5 (min_le_right _ kContPayload), ← contData,
          ← List.take_take, List.take_of_length_le (i := kContPayload) (length_contData r).le]
      have hdata : data init (conts ++ [r]) = b.buf ++ contData r := by
        rw [data, List.flatMap_append, List.flatMap_singleton, ← List.append_assoc, ← data, ← hbuf]
      rw [hcut, hdata, ← hbcnt, List.take_append, List.take_append, List.take_take, min_self]
    · rw [List.length_take, min_eq_left hge, hbcnt]

/-- **Reassembly is sound.** After any calls the assembly is bounded, and a report completes a
message only at the end of a transaction, whose data the message is. -/
theorem reassembly_sound (calls : List Call) :
    (∀ a, (afterAll calls).assembly = some a → Bounded a) ∧
      ∀ r msg, ((afterAll calls).ingest r).1 = .ok (some msg) →
        ∃ init conts, Transaction (calls ++ [.report r]) init conts ∧ Delivers init conts msg :=
  ⟨fun a ha => (afterAll_tracks calls a ha).toBounded,
    fun _ _ hmsg => delivers_of_ingest (afterAll_tracks calls) hmsg⟩

end HidFramer

end Swpasskey
