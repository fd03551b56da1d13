import Swpasskey.Bytes

/-!
# CTAPHID framing

`HidFramer::ingest` and `HidFramer::frame`: a message is one INIT report (up to 57 payload
bytes) followed by CONT reports (up to 59 bytes each) numbered from `0`. The framer holds
at most one partial message, the *assembly*, and answers each report with an error, with
"no message yet" or with the completed message.
-/

namespace Swpasskey

namespace HidFramer

/-- The TYPE_INIT bit of a report's fifth byte. -/
def kTypeInit : UInt8 := 0x80

/-- The longest payload a message may announce. -/
def kMaxMessage : ℕ := 7609

/-- Payload bytes of an INIT report. -/
def kInitPayload : ℕ := 57

/-- Payload bytes of a CONT report. -/
def kContPayload : ℕ := 59

/-- `swpk::hid::kReportSize`. -/
def kReportSize : ℕ := 64

/-- One HID report. -/
abbrev Report : Type := Block kReportSize

end HidFramer

/-- CTAPHID error codes. -/
inductive HidErr
  | invalidCmd | invalidPar | invalidLen | invalidSeq | msgTimeout | channelBusy
  | lockRequired | invalidChannel | other
  deriving DecidableEq, Repr

/-- A complete CTAPHID message; `cmd` is without the TYPE_INIT bit. -/
structure Message where
  cid : UInt32
  cmd : UInt8
  payload : Bytes
  deriving DecidableEq, Repr

/-- A partially received message. -/
structure Assembly where
  cid : UInt32
  cmd : UInt8
  bcnt : UInt16
  nextSeq : UInt8
  buf : Bytes
  deriving DecidableEq, Repr

/-- The framer: at most one assembly. -/
structure HidFramer where
  assembly : Option Assembly := none
  deriving DecidableEq, Repr

namespace HidFramer

/-! ### The source functions -/

/-- The channel of a report: its first four bytes, little-endian. -/
def readCidLe (r : Report) : UInt32 :=
  (r.get 0).toUInt32 ||| ((r.get 1).toUInt32 <<< 8) ||| ((r.get 2).toUInt32 <<< 16) |||
    ((r.get 3).toUInt32 <<< 24)

/-- `cid` as four little-endian bytes. -/
def writeCidLe (cid : UInt32) : Bytes :=
  [cid.toUInt8, (cid >>> 8).toUInt8, (cid >>> 16).toUInt8, (cid >>> 24).toUInt8]

/-- Two bytes as a big-endian 16-bit number. -/
def readU16Be (hi lo : UInt8) : UInt16 := (hi.toUInt16 <<< 8) ||| lo.toUInt16

/-- `v` as two big-endian bytes. -/
def writeU16Be (v : UInt16) : Bytes := [(v >>> 8).toUInt8, v.toUInt8]

/-- The payload area of a report: `take` bytes from offset `off`. -/
def slice (r : Report) (off take : ℕ) : Bytes := (r.bytes.drop off).take take

/-- `HidFramer::ingest`: one report in; an error, no message yet, or a message out. -/
def ingest (f : HidFramer) (r : Report) : Except HidErr (Option Message) × HidFramer :=
  let cid := readCidLe r
  if cid = 0 then (.error .invalidChannel, f)
  else
    let b4 := r.get 4
    if b4 &&& kTypeInit ≠ 0 then
      let cmd := b4 &&& 0x7F
      let bcnt := readU16Be (r.get 5) (r.get 6)
      -- ownership first: another channel's INIT never drops the assembly, whatever its BCNT
      if f.assembly.any fun a => a.cid ≠ cid then (.error .channelBusy, f)
      else if bcnt.toNat > kMaxMessage then (.error .invalidLen, ⟨none⟩)
      else
        let buf := slice r 7 (min bcnt.toNat kInitPayload)
        if buf.length ≥ bcnt.toNat then
          (.ok (some ⟨cid, cmd, buf.take bcnt.toNat⟩), ⟨none⟩)
        else (.ok none, ⟨some ⟨cid, cmd, bcnt, 0, buf⟩⟩)
    else
      match f.assembly with
      | none => (.error .invalidSeq, f)
      | some a =>
        if a.cid ≠ cid then (.error .invalidSeq, f)
        else if b4 ≠ a.nextSeq then (.error .invalidSeq, ⟨none⟩)
        else
          let remaining := a.bcnt.toNat - a.buf.length
          let buf := a.buf ++ slice r 5 (min remaining kContPayload)
          let nextSeq := a.nextSeq + 1
          -- the sequence check comes before the completion check
          if nextSeq > 127 then (.error .invalidLen, ⟨none⟩)
          else if buf.length ≥ a.bcnt.toNat then
            (.ok (some ⟨a.cid, a.cmd, buf.take a.bcnt.toNat⟩), ⟨none⟩)
          else (.ok none, ⟨some { a with nextSeq := nextSeq, buf := buf }⟩)

/-- The CONT reports for the bytes `rest`, numbered from `seq` (an 8-bit counter). -/
def frameCont (cid : UInt32) (seq : UInt8) (rest : Bytes) : List Report :=
  if h : rest = [] then []
  else
    Block.ofPadded kReportSize (writeCidLe cid ++ [seq] ++ rest.take kContPayload) ::
      frameCont cid (seq + 1) (rest.drop kContPayload)
termination_by rest.length
decreasing_by
  have : 0 < rest.length := List.length_pos_iff.mpr h
  simp only [List.length_drop, kContPayload]
  omega

/-- `HidFramer::frame`: the reports of a message; none when the payload is too long. -/
def frame (msg : Message) : List Report :=
  if msg.payload.length > kMaxMessage then []
  else
    Block.ofPadded kReportSize
        (writeCidLe msg.cid ++ [kTypeInit ||| msg.cmd] ++
          writeU16Be (UInt16.ofNat msg.payload.length) ++ msg.payload.take kInitPayload) ::
      frameCont msg.cid 0 (msg.payload.drop kInitPayload)

/-- Feed reports in order, collecting the answers. -/
def ingestAll (f : HidFramer) : List Report → List (Except HidErr (Option Message)) × HidFramer
  | [] => ([], f)
  | r :: rs =>
    let (o, f') := f.ingest r
    let (os, f'') := ingestAll f' rs
    (o :: os, f'')

/-- The framing round trip at `f` and `msg`: every report of `frame msg` but the last is
answered "no message yet", the last with exactly `msg`, and no assembly is left. -/
def RoundTrips (f : HidFramer) (msg : Message) : Prop :=
  f.ingestAll (frame msg) =
    (List.replicate ((frame msg).length - 1) (.ok none) ++ [.ok (some msg)], ⟨none⟩)

/-! ### One report -/

theorem readU16Be_writeU16Be (v : UInt16) : readU16Be (v >>> 8).toUInt8 v.toUInt8 = v := by
  apply UInt16.toBitVec_inj.mp
  ext i hi
  simp [readU16Be, -UInt16.toUInt16_toUInt8, BitVec.getElem_setWidth]
  grind

/-- The TYPE_INIT bit is set on INIT reports, clear on CONT reports, and masks out again. -/
theorem typeInit_bits {c : UInt8} (h : c < 128) :
    (kTypeInit ||| c) &&& kTypeInit ≠ 0 ∧ (kTypeInit ||| c) &&& 0x7F = c ∧
      c &&& kTypeInit = 0 := by
  have key : ∀ n : Fin 128, (kTypeInit ||| UInt8.ofNat n) &&& kTypeInit ≠ 0 ∧
      (kTypeInit ||| UInt8.ofNat n) &&& 0x7F = UInt8.ofNat n ∧
      UInt8.ofNat n &&& kTypeInit = 0 := by decide +kernel
  have hlt : c.toNat < 128 := by simpa [UInt8.lt_iff_toNat_lt] using h
  simpa using key ⟨c.toNat, hlt⟩

/-- Bytes written behind a header are read back by `slice` at the header's length. -/
theorem slice_ofPadded {hdr data : Bytes} {k : ℕ} (hlen : (hdr ++ data).length ≤ kReportSize)
    (hk : k ≤ data.length) :
    slice (Block.ofPadded kReportSize (hdr ++ data)) hdr.length k = data.take k := by
  rw [slice, Block.bytes_ofPadded hlen, List.append_assoc, List.drop_left,
    List.take_append_of_le_length hk]

theorem readCidLe_ofPadded {cid : UInt32} {l : Bytes}
    (hlen : (writeCidLe cid ++ l).length ≤ kReportSize) :
    readCidLe (Block.ofPadded kReportSize (writeCidLe cid ++ l)) = cid := by
  simp only [readCidLe, Block.get_ofPadded hlen]
  exact or_le32 cid

variable {cid : UInt32} {cmd : UInt8} {payload : Bytes}

/-- The length of a message fits BCNT. -/
private theorem toNat_length (hlen : payload.length ≤ kMaxMessage) :
    (UInt16.ofNat payload.length).toNat = payload.length := by
  simp only [kMaxMessage] at hlen
  simp only [UInt16.toNat_ofNat', Nat.reducePow]
  omega

/-- The INIT report of a message, at a framer that may take it. -/
theorem ingest_init {f : HidFramer} (hcid : cid ≠ 0) (hcmd : cmd < 128)
    (hlen : payload.length ≤ kMaxMessage) (hf : ∀ a ∈ f.assembly, a.cid = cid) :
    f.ingest (Block.ofPadded kReportSize (writeCidLe cid ++ [kTypeInit ||| cmd] ++
        writeU16Be (UInt16.ofNat payload.length) ++ payload.take kInitPayload)) =
      if payload.length ≤ kInitPayload then (.ok (some ⟨cid, cmd, payload⟩), ⟨none⟩)
      else (.ok none, ⟨some ⟨cid, cmd, UInt16.ofNat payload.length, 0,
        payload.take kInitPayload⟩⟩) := by
  obtain ⟨hinit, hcmd', -⟩ := typeInit_bits hcmd
  set hdr : Bytes := writeCidLe cid ++ [kTypeInit ||| cmd] ++
    writeU16Be (UInt16.ofNat payload.length) with hhdr
  have hhlen : hdr.length = 7 := rfl
  have hfit : (hdr ++ payload.take kInitPayload).length ≤ kReportSize := by
    simp only [List.length_append, hhlen, List.length_take, kInitPayload, kReportSize]
    omega
  have hread : readCidLe (Block.ofPadded kReportSize (hdr ++ payload.take kInitPayload)) = cid := by
    rw [hhdr, List.append_assoc, List.append_assoc]
    exact readCidLe_ofPadded (by simpa [hhdr] using hfit)
  have hget : ∀ i < 7, (Block.ofPadded kReportSize (hdr ++ payload.take kInitPayload)).get i =
      hdr.getD i 0 := by
    intro i hi
    rw [Block.get_ofPadded hfit, List.getD_append _ _ _ _ (by omega)]
  have hbusy : (f.assembly.any fun a => a.cid ≠ cid) = false := by
    rcases hfa : f.assembly with _ | a
    · rfl
    · simp [hf a hfa]
  have h4 : hdr.getD 4 0 = kTypeInit ||| cmd := rfl
  have hbcnt : readU16Be (hdr.getD 5 0) (hdr.getD 6 0) = UInt16.ofNat payload.length :=
    readU16Be_writeU16Be _
  have hbuf : slice (Block.ofPadded kReportSize (hdr ++ payload.take kInitPayload)) 7
      (min payload.length kInitPayload) = payload.take kInitPayload := by
    rw [← hhlen, slice_ofPadded hfit (by simp [min_comm])]
    exact List.take_of_length_le (by simp [min_comm])
  simp only [ingest, hread, hcid, if_false, hget 4 (by omega), hget 5 (by omega),
    hget 6 (by omega), h4, hcmd', hbcnt, toNat_length hlen, hbusy, hbuf, ne_eq, hinit,
    not_false_iff, if_true, Bool.false_eq_true, if_neg (Nat.not_lt.mpr hlen)]
  by_cases hsmall : payload.length ≤ kInitPayload
  · simp [hsmall, List.take_of_length_le]
  · rw [if_neg (by simp only [List.length_take]; omega), if_neg hsmall]

/-- A CONT report continues the assembly it belongs to; the report numbered `127` is
refused whether or not it completes the message. -/
theorem ingest_cont {seq : UInt8} {buf rest : Bytes} (hcid : cid ≠ 0) (hseq : seq < 128)
    (hpay : buf ++ rest = payload) (hlen : payload.length ≤ kMaxMessage) :
    (⟨some ⟨cid, cmd, UInt16.ofNat payload.length, seq, buf⟩⟩ : HidFramer).ingest
        (Block.ofPadded kReportSize (writeCidLe cid ++ [seq] ++ rest.take kContPayload)) =
      if seq = 127 then (.error .invalidLen, ⟨none⟩)
      else if rest.length ≤ kContPayload then (.ok (some ⟨cid, cmd, payload⟩), ⟨none⟩)
      else (.ok none, ⟨some ⟨cid, cmd, UInt16.ofNat payload.length, seq + 1,
        buf ++ rest.take kContPayload⟩⟩) := by
  obtain ⟨-, -, hcont⟩ := typeInit_bits hseq
  have hsum : payload.length = buf.length + rest.length := by rw [← hpay, List.length_append]
  set hdr : Bytes := writeCidLe cid ++ [seq] with hhdr
  have hhlen : hdr.length = 5 := rfl
  have hfit : (hdr ++ rest.take kContPayload).length ≤ kReportSize := by
    simp only [List.length_append, hhlen, List.length_take, kContPayload, kReportSize]
    omega
  have hread : readCidLe (Block.ofPadded kReportSize (hdr ++ rest.take kContPayload)) = cid := by
    rw [hhdr, List.append_assoc]
    exact readCidLe_ofPadded (by simpa [hhdr] using hfit)
  have hget : (Block.ofPadded kReportSize (hdr ++ rest.take kContPayload)).get 4 = seq := by
    rw [Block.get_ofPadded hfit, List.getD_append _ _ _ _ (by omega)]
    rfl
  have hbuf : slice (Block.ofPadded kReportSize (hdr ++ rest.take kContPayload)) 5
      (min (payload.length - buf.length) kContPayload) = rest.take kContPayload := by
    rw [← hhlen, slice_ofPadded hfit (by rw [hsum]; simp [min_comm])]
    exact List.take_of_length_le (by rw [hsum]; simp [min_comm])
  -- the framer compares after it increments, so the refused report is number `127`
  have hnext : seq + 1 > 127 ↔ seq = 127 := by
    rw [UInt8.lt_iff_toNat_lt] at hseq
    rw [gt_iff_lt, UInt8.lt_iff_toNat_lt, ← UInt8.toNat_inj, UInt8.toNat_add]
    simp only [UInt8.reduceToNat] at hseq ⊢
    omega
  simp only [ingest, hread, hcid, if_false, hget, hcont, toNat_length hlen, hbuf, ne_eq,
    not_true_eq_false, hnext]
  split_ifs with h127 hge hsmall hsmall
  · rfl
  · have htake : rest.take kContPayload = rest := List.take_of_length_le hsmall
    rw [htake, hpay, List.take_length]
  · simp only [List.length_append, List.length_take] at hge
    omega
  · simp only [List.length_append, List.length_take] at hge
    omega
  · rfl

/-! ### Whole messages -/

theorem ingestAll_cons (f : HidFramer) (r : Report) (rs : List Report) :
    f.ingestAll (r :: rs) =
      ((f.ingest r).1 :: ((f.ingest r).2.ingestAll rs).1, ((f.ingest r).2.ingestAll rs).2) :=
  rfl

theorem ingestAll_append (f : HidFramer) (l l' : List Report) :
    f.ingestAll (l ++ l') = ((f.ingestAll l).1 ++ ((f.ingestAll l).2.ingestAll l').1,
      ((f.ingestAll l).2.ingestAll l').2) := by
  induction l generalizing f with
  | nil => rfl
  | cons r l ih => rw [List.cons_append, ingestAll_cons, ih, ingestAll_cons, List.cons_append]

private theorem frameCont_of_ne_nil {seq : UInt8} {rest : Bytes} (h : rest ≠ []) :
    frameCont cid seq rest =
      Block.ofPadded kReportSize (writeCidLe cid ++ [seq] ++ rest.take kContPayload) ::
        frameCont cid (seq + 1) (rest.drop kContPayload) := by
  rw [frameCont, dif_neg h]

/-- `seq + 1` does not wrap below `127`. -/
private theorem toNat_succ_seq {seq : UInt8} (h : seq.toNat < 127) :
    (seq + 1).toNat = seq.toNat + 1 := by
  rw [UInt8.toNat_add]
  simp only [UInt8.reduceToNat]
  omega

/-- **Completion.** When the remaining bytes fit the reports numbered below `127`, feeding
the CONT reports completes the message at the last one. -/
theorem ingestAll_frameCont (hcid : cid ≠ 0) (hlen : payload.length ≤ kMaxMessage) :
    ∀ (seq : UInt8) (buf rest : Bytes), buf ++ rest = payload → rest ≠ [] →
      rest.length ≤ kContPayload * (127 - seq.toNat) →
      (⟨some ⟨cid, cmd, UInt16.ofNat payload.length, seq, buf⟩⟩ : HidFramer).ingestAll
          (frameCont cid seq rest) =
        (List.replicate ((frameCont cid seq rest).length - 1) (.ok none) ++
          [.ok (some ⟨cid, cmd, payload⟩)], ⟨none⟩) := by
  intro seq buf rest
  -- along the bytes that remain; each report takes the first of them
  induction hn : rest.length using Nat.strong_induction_on generalizing seq buf rest with
  | _ n ih =>
  subst hn
  intro hpay hne hfit
  have hpos : 0 < rest.length := List.length_pos_iff.mpr hne
  have hseq : seq.toNat < 127 := by
    by_contra hcon
    have hzero : 127 - seq.toNat = 0 := by omega
    rw [hzero] at hfit
    omega
  have hseq' : seq < 128 := by
    rw [UInt8.lt_iff_toNat_lt]
    simp only [UInt8.reduceToNat]
    omega
  have hne127 : seq ≠ 127 := by
    rintro rfl
    simp at hseq
  rw [frameCont_of_ne_nil hne, ingestAll_cons, ingest_cont hcid hseq' hpay hlen, if_neg hne127]
  by_cases hsmall : rest.length ≤ kContPayload
  · -- the last report
    have hnil : rest.drop kContPayload = [] := List.drop_eq_nil_of_le hsmall
    rw [if_pos hsmall, hnil, frameCont, dif_pos rfl]
    rfl
  · rw [if_neg hsmall]
    have hdrop : (rest.drop kContPayload).length < rest.length := by
      simp only [List.length_drop, kContPayload]
      omega
    have hdne : rest.drop kContPayload ≠ [] := by
      intro hnil
      have := congrArg List.length hnil
      simp only [List.length_drop, List.length_nil] at this
      omega
    have hpay' : buf ++ rest.take kContPayload ++ rest.drop kContPayload = payload := by
      rw [List.append_assoc, List.take_append_drop, hpay]
    have hfit' : (rest.drop kContPayload).length ≤ kContPayload * (127 - (seq + 1).toNat) := by
      rw [toNat_succ_seq hseq, List.length_drop]
      have hsplit : 127 - seq.toNat = 127 - (seq.toNat + 1) + 1 := by omega
      rw [hsplit, Nat.mul_succ] at hfit
      omega
    rw [ih _ hdrop _ _ _ rfl hpay' hdne hfit']
    have hone : 0 < (frameCont cid (seq + 1) (rest.drop kContPayload)).length := by
      rw [frameCont_of_ne_nil hdne]
      simp
    obtain ⟨k, hk⟩ : ∃ k, (frameCont cid (seq + 1) (rest.drop kContPayload)).length = k + 1 :=
      ⟨_, (Nat.succ_pred_eq_of_pos hone).symm⟩
    simp [hk, List.replicate_succ]

/-- **Refusal.** When the remaining bytes need the report numbered `127`, feeding the CONT
reports produces an error instead of the message. -/
theorem error_mem_ingestAll_frameCont (cmd : UInt8) (hcid : cid ≠ 0)
    (hlen : payload.length ≤ kMaxMessage) :
    ∀ (seq : UInt8) (buf rest : Bytes), buf ++ rest = payload → seq.toNat ≤ 127 →
      kContPayload * (127 - seq.toNat) < rest.length →
      .error .invalidLen ∈ ((⟨some ⟨cid, cmd, UInt16.ofNat payload.length, seq, buf⟩⟩ :
        HidFramer).ingestAll (frameCont cid seq rest)).1 := by
  intro seq buf rest
  induction hn : rest.length using Nat.strong_induction_on generalizing seq buf rest with
  | _ n ih =>
  subst hn
  intro hpay hle hfit
  have hne : rest ≠ [] := by
    rintro rfl
    simp at hfit
  have hseq' : seq < 128 := by
    rw [UInt8.lt_iff_toNat_lt]
    simp only [UInt8.reduceToNat]
    omega
  rw [frameCont_of_ne_nil hne, ingestAll_cons, ingest_cont hcid hseq' hpay hlen]
  by_cases h127 : seq = 127
  · -- `seq + 1` passes `0x7F`, whether or not the message is complete
    rw [if_pos h127]
    exact List.mem_cons_self
  · have hseq : seq.toNat < 127 := by
      refine lt_of_le_of_ne hle fun heq => h127 ?_
      rw [← UInt8.toNat_inj, heq]
      rfl
    have hsplit : 127 - seq.toNat = 127 - (seq.toNat + 1) + 1 := by omega
    rw [hsplit, Nat.mul_succ] at hfit
    rw [if_neg h127, if_neg (by omega)]
    have hpay' : buf ++ rest.take kContPayload ++ rest.drop kContPayload = payload := by
      rw [List.append_assoc, List.take_append_drop, hpay]
    refine List.mem_cons_of_mem _ (ih _ ?_ _ _ _ rfl hpay' ?_ ?_)
    · simp only [List.length_drop, kContPayload]
      omega
    · rw [toNat_succ_seq hseq]
      omega
    · rw [toNat_succ_seq hseq, List.length_drop]
      omega

private theorem frame_of_le (hlen : payload.length ≤ kMaxMessage) :
    frame ⟨cid, cmd, payload⟩ =
      Block.ofPadded kReportSize (writeCidLe cid ++ [kTypeInit ||| cmd] ++
          writeU16Be (UInt16.ofNat payload.length) ++ payload.take kInitPayload) ::
        frameCont cid 0 (payload.drop kInitPayload) := by
  rw [frame, if_neg (Nat.not_lt.mpr hlen)]

/-- Payloads of at most `7550` bytes round-trip. -/
theorem roundTrips_of_le {f : HidFramer} (hcid : cid ≠ 0) (hcmd : cmd < 128)
    (hf : ∀ a ∈ f.assembly, a.cid = cid) (hle : payload.length ≤ 7550) :
    RoundTrips f ⟨cid, cmd, payload⟩ := by
  have hlen : payload.length ≤ kMaxMessage := hle.trans (by decide)
  rw [RoundTrips, frame_of_le hlen, ingestAll_cons, ingest_init hcid hcmd hlen hf]
  by_cases hsmall : payload.length ≤ kInitPayload
  · have hnil : payload.drop kInitPayload = [] := List.drop_eq_nil_of_le hsmall
    rw [if_pos hsmall, hnil, frameCont, dif_pos rfl]
    rfl
  · rw [if_neg hsmall]
    have hdne : payload.drop kInitPayload ≠ [] := by
      rw [Ne, List.drop_eq_nil_iff]
      exact hsmall
    rw [ingestAll_frameCont hcid hlen 0 _ _ (List.take_append_drop _ _) hdne
      (by simp only [List.length_drop, kInitPayload, kContPayload, UInt8.toNat_zero]; omega)]
    have hone : 0 < (frameCont cid 0 (payload.drop kInitPayload)).length := by
      rw [frameCont_of_ne_nil hdne]
      simp
    obtain ⟨k, hk⟩ : ∃ k, (frameCont cid 0 (payload.drop kInitPayload)).length = k + 1 :=
      ⟨_, (Nat.succ_pred_eq_of_pos hone).symm⟩
    simp [hk, List.replicate_succ]

/-- Longer payloads do not: an error stands among the answers. -/
theorem not_roundTrips_of_gt {f : HidFramer} (hcid : cid ≠ 0) (hcmd : cmd < 128)
    (hlen : payload.length ≤ kMaxMessage) (hf : ∀ a ∈ f.assembly, a.cid = cid)
    (hgt : 7550 < payload.length) : ¬ RoundTrips f ⟨cid, cmd, payload⟩ := by
  rw [RoundTrips, frame_of_le hlen, ingestAll_cons, ingest_init hcid hcmd hlen hf,
    if_neg (by simp only [kInitPayload]; omega)]
  intro h
  have herr := error_mem_ingestAll_frameCont cmd hcid hlen 0 _ _
    (List.take_append_drop kInitPayload payload) (by simp)
    (by simp only [List.length_drop, kInitPayload, kContPayload, UInt8.toNat_zero]; omega)
  have hin := List.mem_cons_of_mem (Except.ok none) herr
  rw [Prod.mk.injEq] at h
  rw [h.1] at hin
  simp at hin

/-- **Framing round trip, exactly.** A message with a nonzero channel, a 7-bit command and
a payload the format allows survives `frame` and `ingest` if and only if its payload has at
most `7550` bytes: the sequence check refuses the report numbered `127` before the
completion check can accept it, so the last 59 of the 7609 announced bytes are out of
reach. -/
theorem roundTrips_iff {f : HidFramer} {msg : Message} (hcid : msg.cid ≠ 0)
    (hcmd : msg.cmd < 128) (hlen : msg.payload.length ≤ kMaxMessage)
    (hf : ∀ a ∈ f.assembly, a.cid = msg.cid) :
    RoundTrips f msg ↔ msg.payload.length ≤ 7550 :=
  ⟨fun h => not_lt.mp fun hgt => not_roundTrips_of_gt hcid hcmd hlen hf hgt h,
    roundTrips_of_le hcid hcmd hf⟩

/-- The round trip at a one-report message. -/
theorem roundTrips_getInfo : RoundTrips {} ⟨0x11223344, 0x10, [0x04]⟩ :=
  (roundTrips_iff (by decide) (by decide) (by decide) (by simp)).mpr (by decide)

/-- A payload of the full announced size is not delivered. -/
theorem not_roundTrips_maxMessage :
    (List.replicate kMaxMessage (0 : UInt8)).length ≤ kMaxMessage ∧
      ¬ RoundTrips {} ⟨1, 0x10, List.replicate kMaxMessage 0⟩ :=
  ⟨by simp, not_roundTrips_of_gt (by decide) (by decide) (by simp) (by simp)
    (by rw [List.length_replicate]; decide)⟩

/-! ### The reports of a message -/

theorem readCidLe_of_mem_frameCont {r : Report} {rest : Bytes} (seq : UInt8)
    (h : r ∈ frameCont cid seq rest) : readCidLe r = cid := by
  induction hn : rest.length using Nat.strong_induction_on generalizing seq rest with
  | _ n ih =>
  subst hn
  rw [frameCont] at h
  split_ifs at h with hnil
  · cases h
  · rcases List.mem_cons.mp h with rfl | h
    · rw [List.append_assoc]
      refine readCidLe_ofPadded ?_
      simp only [writeCidLe, List.length_append, List.length_cons, List.length_nil,
        List.length_take, kContPayload, kReportSize]
      omega
    · refine ih _ ?_ _ h rfl
      have hpos : 0 < rest.length := List.length_pos_iff.mpr hnil
      simp only [List.length_drop, kContPayload]
      omega

/-- Every report of a message is on its channel. -/
theorem readCidLe_of_mem_frame {r : Report} {msg : Message} (h : r ∈ frame msg) :
    readCidLe r = msg.cid := by
  unfold frame at h
  split_ifs at h
  · cases h
  · rcases List.mem_cons.mp h with rfl | h
    · rw [List.append_assoc, List.append_assoc]
      refine readCidLe_ofPadded ?_
      simp only [writeCidLe, writeU16Be, List.length_append, List.length_cons, List.length_nil,
        List.length_take, kInitPayload, kReportSize]
      omega
    · exact readCidLe_of_mem_frameCont 0 h

/-- The first report of a message names its command. -/
theorem get_four_of_frame {r : Report} {rs : List Report} {msg : Message}
    (h : frame msg = r :: rs) : r.get 4 = kTypeInit ||| msg.cmd := by
  unfold frame at h
  split_ifs at h
  obtain ⟨rfl, -⟩ := List.cons.inj h
  refine (Block.get_ofPadded ?_).trans rfl
  simp only [writeCidLe, writeU16Be, List.length_append, List.length_cons, List.length_nil,
    List.length_take, kInitPayload, kReportSize]
  omega

end HidFramer

end Swpasskey
