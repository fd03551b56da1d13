import Swpasskey.Ctl.ListReply
import Swpasskey.Ctl.Server

/-!
# The requests of the command line tool

`swpasskeyctl` writes a flat object with the operation and at most one argument. The server reads it
back as it was meant, and a request that lost its end is rejected, because what the parser accepts
it would accept with anything behind it (`ok_parseFlatJson_append`). The tool takes a reply for a
success when `"ok":true` is somewhere in it, and this is in the reply exactly when the operation
succeeded (`handleRequest_line`).
-/

namespace Swpasskey

open Proc Json

/-! ### What is accepted with more behind it -/

namespace Json

variable {l l' t k v out rest : Bytes} {c : UInt8} {fields : List (Bytes × Bytes)}

theorem skipWs_append_of_ne_nil (h : skipWs l ≠ []) (t : Bytes) :
    skipWs (l ++ t) = skipWs l ++ t := by
  rw [skipWs, List.dropWhile_append, if_neg]
  · rfl
  · rwa [List.isEmpty_iff]

theorem parseChars_append (h : parseChars out l = some (v, l')) (t : Bytes) :
    parseChars out (l ++ t) = some (v, l' ++ t) := by
  fun_induction parseChars out l with
  | case2 out l =>
    cases h
    rw [List.cons_append, parseChars.eq_def]
    exact if_pos rfl
  | case4 out h₁ h₂ h₃ h₄ l unit hunit _ ih =>
    have hreads := reads_hex hunit out (l ++ t)
    exact hreads.trans (ih h)
  | case7 out e l hne b hb _ ih =>
    exact (reads_unescape hne hb out (l ++ t)).trans (ih h)
  | case9 out c l hquote hback ih =>
    exact (reads_byte hquote hback out (l ++ t)).trans (ih h)
  | _ => cases h

theorem parseString_append (h : parseString l = some (v, l')) (t : Bytes) :
    parseString (l ++ t) = some (v, l' ++ t) := by
  cases l with
  | nil => cases h
  | cons c l =>
    rw [parseString] at h
    split_ifs at h with hc
    rw [List.cons_append, parseString, if_pos hc]
    exact parseChars_append h t

theorem parseValue_append (h : parseValue l = .ok (v, l')) (hl : l' ≠ []) (t : Bytes) :
    parseValue (l ++ t) = .ok (v, l' ++ t) := by
  have hne : l ≠ [] := by
    rintro rfl
    cases h
  rw [parseValue, List.head?_append_of_ne_nil l hne]
  rw [parseValue] at h
  by_cases hquote : l.head? = some 0x22
  · rw [if_pos hquote] at h ⊢
    rcases hstr : parseString l with _ | ⟨v', l''⟩ <;> rw [hstr] at h <;> cases h
    rw [parseString_append hstr]
  rw [if_neg hquote] at h ⊢
  by_cases hnested : l.head? = some 0x7B ∨ l.head? = some 0x5B
  · rw [if_pos hnested] at h
    cases h
  rw [if_neg hnested] at h ⊢
  dsimp only at h ⊢
  split_ifs at h with hnil
  obtain ⟨rfl, rfl⟩ := Prod.mk.inj (Except.ok.inj h)
  -- the value ends inside the text, and what is behind it does not move its end
  have hshort : (l.takeWhile (!endsToken ·)).length ≠ l.length := by
    intro hlen
    rw [hlen, List.drop_length] at hl
    exact hl rfl
  have hle := (List.takeWhile_prefix (l := l) (!endsToken ·)).length_le
  rw [List.takeWhile_append, if_neg hshort, if_neg hnil, List.drop_append_of_le_length hle]

theorem parseMember_append (h : parseMember l = .ok (k, v, c :: rest)) (t : Bytes) :
    parseMember (l ++ t) = .ok (k, v, c :: (rest ++ t)) := by
  rw [parseMember] at h
  rcases hkey : parseString (skipWs l) with _ | ⟨k', l₁⟩ <;> rw [hkey] at h
  · cases h
  have hne : skipWs l ≠ [] := by
    intro hnil
    rw [hnil] at hkey
    cases hkey
  dsimp only at h
  split_ifs at h with hcolon
  have hne₁ : skipWs l₁ ≠ [] := by
    intro hnil
    rw [hnil] at hcolon
    cases hcolon
  rcases hval : parseValue (skipWs (skipWs l₁).tail) with e | ⟨v', l₂⟩ <;> rw [hval] at h
  · cases h
  obtain ⟨rfl, rfl, hrest⟩ : k' = k ∧ v' = v ∧ skipWs l₂ = c :: rest := by simpa using h
  have hne₂ : skipWs l₂ ≠ [] := hrest ▸ List.cons_ne_nil c rest
  have hl₂ : l₂ ≠ [] := fun hnil => hne₂ (by rw [hnil]; rfl)
  have hne₃ : skipWs (skipWs l₁).tail ≠ [] := by
    intro hnil
    rw [hnil] at hval
    cases hval
  rw [parseMember, skipWs_append_of_ne_nil hne, parseString_append hkey]
  dsimp only
  rw [skipWs_append_of_ne_nil hne₁, List.head?_append_of_ne_nil _ hne₁, if_pos hcolon,
    List.tail_append_of_ne_nil hne₁, skipWs_append_of_ne_nil hne₃, parseValue_append hval hl₂]
  dsimp only
  rw [skipWs_append_of_ne_nil hne₂, hrest, List.cons_append]

theorem ok_parseMembers_append (h : (parseMembers fields l).ok = true) (t : Bytes) :
    (parseMembers fields (l ++ t)).ok = true := by
  induction hn : l.length using Nat.strong_induction_on generalizing fields l with
  | _ n ih =>
    rcases hmember : parseMember l with e | ⟨k, v, _ | ⟨c, rest⟩⟩
    · rw [parseMembers_error hmember] at h
      cases h
    · rw [parseMembers_end hmember] at h
      cases h
    · rw [parseMembers_ok hmember] at h
      rw [parseMembers_ok (parseMember_append hmember t)]
      split_ifs at h ⊢
      · have hlt := length_of_parseMember hmember
        rw [List.length_cons] at hlt
        exact ih _ (by omega) h rfl
      · rfl

/-- **What is accepted is accepted with anything behind it.** -/
theorem ok_parseFlatJson_append (h : (parseFlatJson l).ok = true) (t : Bytes) :
    (parseFlatJson (l ++ t)).ok = true := by
  rw [parseFlatJson] at h
  rcases hskip : skipWs l with _ | ⟨c, l₁⟩ <;> rw [hskip] at h
  · cases h
  have hne : skipWs l ≠ [] := hskip ▸ List.cons_ne_nil c l₁
  rw [parseFlatJson, skipWs_append_of_ne_nil hne, hskip, List.cons_append]
  dsimp only at h ⊢
  by_cases hbrace : c ≠ 0x7B
  · rw [if_pos hbrace] at h
    cases h
  rw [if_neg hbrace] at h ⊢
  have hne₁ : skipWs l₁ ≠ [] := by
    intro hnil
    rw [hnil, List.head?_nil, if_neg (by simp), parseMembers_error (e := ascii "bad key") rfl] at h
    cases h
  rw [skipWs_append_of_ne_nil hne₁, List.head?_append_of_ne_nil _ hne₁]
  split_ifs at h ⊢
  · rfl
  · exact ok_parseMembers_append h t

/-- A member whose value is a string ends the loop where the text ends. -/
theorem parseMember_end {m : FlatMember} {kv : Bytes × Bytes} {x : Bytes} (hm : m.WellFormed)
    (hkv : m.Reads kv) (hx : m.value = .str x) : parseMember m.bytes = .ok (kv.1, kv.2, []) := by
  have hval := hkv.2
  rw [FlatMember.ReadsValue, hx] at hval
  have hread : parseValue (m.value.bytes ++ (m.afterValue ++ [])) = .ok (kv.2, m.afterValue) := by
    rw [hx, FlatValue.bytes, List.append_nil, List.append_assoc, List.singleton_append]
    exact parseValue_str hval _
  have hend := (parseMember_of_key hm hkv.1 []).1 _ _ hread
  have hskip : skipWs m.afterValue = [] := by
    have happend := skipWs_append hm.afterValue []
    rwa [List.append_nil] at happend
  rwa [List.append_nil, hskip] at hend

/-- Without its brace, an object of strings is rejected. -/
theorem not_ok_parseMembers {ms : List FlatMember} {kvs : List (Bytes × Bytes)}
    (hms : ∀ m ∈ ms, m.WellFormed ∧ ∃ x, m.value = .str x)
    (hkvs : List.Forall₂ FlatMember.Reads ms kvs) (fields : List (Bytes × Bytes)) :
    (parseMembers fields (FlatMember.join ms)).ok = false := by
  induction hkvs generalizing fields with
  | nil =>
    rw [FlatMember.join, parseMembers_error (e := ascii "bad key") rfl]
  | @cons m kv ms kvs hkv hkvs ih =>
    obtain ⟨hm, x, hx⟩ := hms m List.mem_cons_self
    have htail := fun m' h => hms m' (List.mem_cons_of_mem m h)
    cases hkvs with
    | nil =>
      rw [FlatMember.join, List.flatMap_nil, List.append_nil,
        parseMembers_end (parseMember_end hm hkv hx)]
    | @cons m' kv' ms kvs hkv' hkvs =>
      have hjoin := join_cons_cons m m' ms []
      rw [List.append_nil, List.append_nil] at hjoin
      rw [hjoin, parseMembers_ok (parseMember_of_reads hm hkv (.inl rfl) _), if_pos rfl]
      exact ih htail _

/-- **A text that lost its end is rejected.** -/
theorem not_ok_of_isPrefix {ms : List FlatMember} {kvs : List (Bytes × Bytes)}
    (hms : ∀ m ∈ ms, m.WellFormed ∧ ∃ x, m.value = .str x) (hne : ms ≠ [])
    (hkvs : List.Forall₂ FlatMember.Reads ms kvs) (hl : l <+: 0x7B :: FlatMember.join ms) :
    (parseFlatJson l).ok = false := by
  obtain ⟨t, ht⟩ := hl
  have hopen : parseFlatJson ([] ++ 0x7B :: (FlatMember.join ms ++ [])) =
      parseMembers [] (FlatMember.join ms ++ []) :=
    parseFlatJson_object (by simp) (fun m hm => (hms m hm).1) hne []
  rw [List.nil_append, List.append_nil] at hopen
  by_contra hok
  have hlonger := ok_parseFlatJson_append (Bool.eq_true_of_not_eq_false hok) t
  rw [ht, hopen, not_ok_parseMembers hms hkvs] at hlonger
  cases hlonger

end Json

/-! ### The statistics -/

namespace Server

/-- `AuthenticatorMetrics`, but for `up_cancel`, which is not printed. -/
structure AuthenticatorMetrics where
  makeCredOk : UInt64 := 0
  makeCredErr : UInt64 := 0
  getAssertOk : UInt64 := 0
  getAssertErr : UInt64 := 0
  upAllow : UInt64 := 0
  upDeny : UInt64 := 0
  upTimeout : UInt64 := 0
  pinFail : UInt64 := 0
  pinBlock : UInt64 := 0
  ctapStatus : Fin 256 → UInt64 := fun _ => 0

/-- `HidDevice::counters` and `Loop::stats`. -/
structure LoopCounters where
  hidInit : UInt64
  hidError : UInt64
  hidPing : UInt64
  keepalives : UInt64
  cancels : UInt64

/-- What `stats_json` prints that is counted outside the world. -/
structure Stats where
  keyBackend : Bytes := []
  probeDetail : Bytes := []
  metrics : AuthenticatorMetrics := {}
  loop : Option LoopCounters := none

/-- `count_by_backend`, for one of them. -/
def countBy (s : Store) (kind : BackendKind) : UInt64 :=
  UInt64.ofNat (s.creds.countP (·.backend = kind))

/-- The member of a status in `errors`. -/
def statusCall (m : AuthenticatorMetrics) (i : Fin 256) : Option JsonWriter.Call :=
  if i = 0 ∨ m.ctapStatus i = 0 then none
  else some (.num (ascii "0x" ++ hex [UInt8.ofNat i]) (m.ctapStatus i))

/-- The calls of `stats_json` for the store. -/
def storeCalls (s : Store) : List JsonWriter.Call :=
  [.object (ascii "creds"), .num (ascii "software") (countBy s .software),
    .num (ascii "tpm2") (countBy s .tpm2), .num (ascii "se") (countBy s .secureEnclave),
    .endObject, .num (ascii "store_creds") (UInt64.ofNat s.creds.length),
    .num (ascii "remaining") (UInt64.ofNat s.remaining),
    .boolean (ascii "pin_set") s.pin.hash.isSome,
    .num (ascii "pin_retries") s.pin.retries.toUInt64]

/-- The calls of `stats_json` for the authenticator. -/
def authCalls (m : AuthenticatorMetrics) : List JsonWriter.Call :=
  [.num (ascii "make_cred_ok") m.makeCredOk, .num (ascii "make_cred_err") m.makeCredErr,
    .num (ascii "get_assert_ok") m.getAssertOk, .num (ascii "get_assert_err") m.getAssertErr,
    .num (ascii "up_allow") m.upAllow, .num (ascii "up_deny") m.upDeny,
    .num (ascii "up_timeout") m.upTimeout, .num (ascii "pin_fail") m.pinFail,
    .num (ascii "pin_block") m.pinBlock, .object (ascii "errors")] ++
  (List.finRange 256).filterMap (statusCall m) ++ [.endObject]

/-- The calls of `stats_json` for the loop. -/
def loopCalls (c : LoopCounters) : List JsonWriter.Call :=
  [.num (ascii "hid_init") c.hidInit, .num (ascii "hid_error") c.hidError,
    .num (ascii "hid_ping") c.hidPing, .num (ascii "keepalives") c.keepalives,
    .num (ascii "cancels") c.cancels]

/-- `stats_json`. -/
def statsJson (store auth : Bool) (q : Stats) (s : Store) : Bytes :=
  (JsonWriter.run {} (.beginObject :: .boolean (ascii "ok") true ::
    ([.str (ascii "key_backend") q.keyBackend, .str (ascii "probe") q.probeDetail] ++
      (if store then storeCalls s else []) ++ (if auth then authCalls q.metrics else []) ++
      q.loop.elim [] loopCalls ++ [.endObject]))).finish

/-- What the server prints on `stats` is what `stats_json` writes. -/
def ServerDeps.Prints (deps : ServerDeps) : Prop :=
  ∃ q : World → Stats, ∀ w, deps.statsJson w =
    Server.statsJson deps.store deps.auth (q w) w.store

end Server

/-! ### The tool -/

namespace Cli

/-- What `json_str` writes for a character: only quotes and backslashes are escaped. -/
def jsonChar (c : UInt8) : Bytes := if c = 0x22 ∨ c = 0x5C then [0x5C, c] else [c]

/-- `json_str`. -/
def jsonStr (v : Bytes) : Bytes := 0x22 :: v.flatMap jsonChar ++ [0x22]

/-- What `main` is asked for. -/
inductive Command
  | list
  | stats
  | reset
  | quit
  | delete (credId : Bytes)
  | logLevel (level : Bytes)
  | setPin (pin : Bytes)
  deriving DecidableEq

/-- The `line` that `main` makes. -/
def Command.line : Command → Bytes
  | list => ascii "\x7b\"op\":\"list\"\x7d"
  | stats => ascii "\x7b\"op\":\"stats\"\x7d"
  | reset => ascii "\x7b\"op\":\"reset\"\x7d"
  | quit => ascii "\x7b\"op\":\"quit\"\x7d"
  | delete credId =>
    ascii "\x7b\"op\":\"delete\",\"cred_id\":" ++ jsonStr credId ++ ascii "\x7d"
  | logLevel level =>
    ascii "\x7b\"op\":\"log-level\",\"level\":" ++ jsonStr level ++ ascii "\x7d"
  | setPin pin => ascii "\x7b\"op\":\"set-pin\",\"pin\":" ++ jsonStr pin ++ ascii "\x7d"

/-- What `main` returns for the result of `request`. -/
def exitCode : Except Status Bytes → ℕ
  | .error _ => 1
  | .ok reply => if (Text.find (ascii "\"ok\":true") reply).isSome then 0 else 1

/-- The tool takes the reply for a success. -/
def SaysOk (reply : Bytes) : Prop := ascii "\"ok\":true" <:+: reply

theorem exitCode_ok (reply : Bytes) : exitCode (.ok reply) = 0 ↔ SaysOk reply := by
  rw [exitCode, SaysOk, ← Text.isSome_find]
  split_ifs with h <;> simp [h]

namespace Command

/-! ### The lines as flat objects -/

/-- The operation and its argument. -/
def fields : Command → List (Bytes × Bytes)
  | list => [(ascii "op", ascii "list")]
  | stats => [(ascii "op", ascii "stats")]
  | reset => [(ascii "op", ascii "reset")]
  | quit => [(ascii "op", ascii "quit")]
  | delete credId => [(ascii "op", ascii "delete"), (ascii "cred_id", credId)]
  | logLevel level => [(ascii "op", ascii "log-level"), (ascii "level", level)]
  | setPin pin => [(ascii "op", ascii "set-pin"), (ascii "pin", pin)]

def member (kv : Bytes × Bytes) : FlatMember :=
  { key := kv.1.flatMap jsonChar, value := .str (kv.2.flatMap jsonChar) }

theorem line_eq (c : Command) :
    c.line = 0x7B :: FlatMember.join (c.fields.map member) ++ [0x7D] := by
  -- an operation with its argument, written in one piece or in members
  have hargument : ∀ (start : Bytes) (o k : Bytes × Bytes), start =
      0x7B :: (member o).bytes ++ 0x2C :: 0x22 :: (k.1.flatMap jsonChar ++ [0x22, 0x3A]) →
      start ++ jsonStr k.2 ++ ascii "\x7d" =
        0x7B :: FlatMember.join ([o, k].map member) ++ [0x7D] := by
    rintro _ o k rfl
    have hclose : ascii "\x7d" = [0x7D] := rfl
    simp [member, FlatMember.join, FlatMember.bytes, FlatValue.bytes, jsonStr, hclose]
  cases c with
  | list => rfl
  | stats => rfl
  | reset => rfl
  | quit => rfl
  | delete v => exact hargument _ (ascii "op", ascii "delete") (ascii "cred_id", v) rfl
  | logLevel v => exact hargument _ (ascii "op", ascii "log-level") (ascii "level", v) rfl
  | setPin v => exact hargument _ (ascii "op", ascii "set-pin") (ascii "pin", v) rfl

theorem reads_jsonChar (v : Bytes) : Reads (v.flatMap jsonChar) v := by
  have hchar : ∀ c ∈ v, Reads (jsonChar c) [c] := by
    intro c _
    rw [jsonChar]
    split_ifs with h
    · rcases h with rfl | rfl
      · exact reads_unescape (by decide) rfl
      · exact reads_unescape (by decide) rfl
    · rw [not_or] at h
      exact reads_byte h.1 h.2
  have hreads := Reads.flatMap hchar
  rwa [List.flatMap_singleton'] at hreads

theorem members_spec (c : Command) :
    (∀ m ∈ c.fields.map member, m.WellFormed ∧ ∃ x, m.value = .str x) ∧
    c.fields.map member ≠ [] ∧ List.Forall₂ FlatMember.Reads (c.fields.map member) c.fields := by
  refine ⟨fun m hm => ?_, by cases c <;> exact List.cons_ne_nil _ _, ?_⟩
  · obtain ⟨kv, -, rfl⟩ := List.mem_map.mp hm
    have hno : ∀ b ∈ ([] : Bytes), isWs b = true := fun b hb => absurd hb List.not_mem_nil
    exact ⟨⟨hno, hno, hno, hno, fun t ht => nomatch ht⟩, _, rfl⟩
  · rw [List.forall₂_map_left_iff, List.forall₂_same]
    exact fun kv _ => ⟨reads_jsonChar kv.1, reads_jsonChar kv.2⟩

/-- **A line is read as it was meant.** -/
theorem parse_line (c : Command) :
    parseFlatJson c.line = { fields := c.fields, ok := true } := by
  obtain ⟨hms, hne, hreads⟩ := c.members_spec
  have hnodup : (c.fields.map Prod.fst).Nodup := by
    have hone : [ascii "op"].Nodup := List.nodup_singleton _
    cases c with
    | list => exact hone
    | stats => exact hone
    | reset => exact hone
    | quit => exact hone
    | delete v => exact show [ascii "op", ascii "cred_id"].Nodup by decide
    | logLevel v => exact show [ascii "op", ascii "level"].Nodup by decide
    | setPin v => exact show [ascii "op", ascii "pin"].Nodup by decide
  have hparse : parseFlatJson ([] ++ 0x7B :: (FlatMember.join (c.fields.map member) ++ [0x7D])) =
      parseMembers [] (FlatMember.join (c.fields.map member) ++ [0x7D]) :=
    parseFlatJson_object (by simp) (fun m hm => (hms m hm).1) hne [0x7D]
  rw [line_eq, List.cons_append]
  refine hparse.trans ?_
  rw [parseMembers_of_reads (fun m hm => (hms m hm).1) hreads hne, setFields_of_nodup hnodup]

/-- A line that lost its end is rejected. -/
theorem not_ok_of_isPrefix {c : Command} {l : Bytes} (hl : l <+: c.line) (hne : l ≠ c.line) :
    (parseFlatJson l).ok = false := by
  obtain ⟨hms, hmembers, hreads⟩ := c.members_spec
  refine Json.not_ok_of_isPrefix hms hmembers hreads ?_
  rw [line_eq] at hl hne
  exact (List.prefix_concat_iff.mp hl).resolve_left hne

end Command

/-! ### What the server makes of them -/

section Requests

open Server

variable (D : Device) (deps : ServerDeps)

/-- An operation of the authenticator, if there is one. -/
def withAuth (m : Cmd Status Unit) : Cmd Status Unit := if deps.auth then m else throw .other

/-- What is asked of the authenticator. -/
def Command.operation : Command → Cmd Status Unit
  | list => require deps.store .other
  | stats => pure ()
  | reset => withAuth deps (ctlReset D)
  | quit => pure ()
  | delete credId => withAuth deps <|
    match unhex credId with
    | .ok id => if id.length = 32 then ctlDelete D id else throw .invalidParameter
    | .error e => throw e
  | logLevel level =>
    require ([ascii "error", ascii "warn", ascii "info", ascii "debug"].contains level)
      .invalidParameter
  | setPin pin => withAuth deps (ctlSetPin D pin)

/-- A reply is one line, and says what came of the request. -/
structure Reports (r : Bytes) (ok : Prop) : Prop where
  newline_notMem : (0x0A : UInt8) ∉ r
  saysOk_iff : SaysOk r ↔ ok

/-- What may stand behind a literal of an error. -/
def errorSeparators : List Bytes := [ascii ":false,", ascii ":", ascii ",", ascii "\x7d"]

/-- Behind the literals of an error nothing is true. -/
theorem not_saysOk_quoted {ps : List (Bytes × Bytes)} (hps : ∀ p ∈ ps, p.2 ∈ errorSeparators) :
    ¬ SaysOk (0x7B :: quoted ps) := by
  rintro ⟨a, z, haz⟩
  have hplain : IsPlain (ascii "ok") := by decide
  have hseps : ∀ x ∈ errorSeparators, (0x22 : UInt8) ∉ x ∧ x ≠ ascii "ok" := by decide
  have hsplit : 0x7B :: quoted ps = a ++ 0x22 :: (ascii "ok" ++ 0x22 :: (ascii ":true" ++ z)) := by
    rw [← haz, List.append_assoc]
    rfl
  obtain ⟨a', -, hquoted⟩ := Text.exists_of_cons_eq hsplit (by decide)
  obtain ⟨pre, s, x, post, rfl, -, -, -, hz⟩ :=
    exists_of_quoted_eq hplain (fun p hp => hseps p.2 (hps p hp)) hquoted
  have hx : x ∈ errorSeparators := hps (s, x) (List.mem_append_right pre List.mem_cons_self)
  -- behind a colon there is the next literal, or nothing
  have hnext : (quoted post).head? ≠ some 0x74 := by
    rcases post with _ | ⟨⟨s', x'⟩, post⟩
    · exact nofun
    · rw [quoted_cons, List.head?_cons]
      decide
  simp only [errorSeparators, List.mem_cons, List.not_mem_nil, or_false] at hx
  rcases hx with rfl | rfl | rfl | rfl
  · exact absurd (congrArg (fun l => l.tail.head?) hz) (by simp [ascii])
  · refine hnext ?_
    exact (congrArg (fun l => l.tail.head?) hz).symm
  · exact absurd (congrArg List.head? hz) (by simp [ascii])
  · exact absurd (congrArg List.head? hz) (by simp [ascii])

/-- An error is one line and never says that it is a success, whatever its texts are. -/
theorem reports_errorJson (msg : Bytes) (st : Option Status) :
    Reports (errorJson msg st) False := by
  have hfalse : ascii ":false," = 0x3A :: (ascii "false" ++ [0x2C]) := rfl
  have hcolon : ascii ":" = [0x3A] := rfl
  have hcomma : ascii "," = [0x2C] := rfl
  have hclose : ascii "\x7d" = [0x7D] := rfl
  have hjson : ∃ fs : List (Bytes × JsonScalar), errorJson msg st = writeFlat fs ∧
      ∃ ps : List (Bytes × Bytes), writeFlat fs = 0x7B :: quoted ps ∧
        ∀ p ∈ ps, p.2 ∈ errorSeparators := by
    cases st with
    | none =>
      refine ⟨[(ascii "ok", .boolean false), (ascii "error", .str msg)], rfl,
        [(ascii "ok", ascii ":false,"), (ascii "error", ascii ":"), (msg, ascii "\x7d")], ?_,
        by simp [errorSeparators]⟩
      rw [writeFlat_eq]
      simp [FlatMember.join, JsonScalar.member, FlatMember.bytes, FlatValue.bytes, quoted,
        JsonWriter.quote, hfalse, hcolon, hclose]
    | some st =>
      refine ⟨[(ascii "ok", .boolean false), (ascii "error", .str msg),
        (ascii "status", .str (ascii "0x" ++ Server.hex [st.code]))], rfl,
        [(ascii "ok", ascii ":false,"), (ascii "error", ascii ":"), (msg, ascii ","),
          (ascii "status", ascii ":"), (ascii "0x" ++ Server.hex [st.code], ascii "\x7d")], ?_,
        by simp [errorSeparators]⟩
      rw [writeFlat_eq]
      simp [FlatMember.join, JsonScalar.member, FlatMember.bytes, FlatValue.bytes, quoted,
        JsonWriter.quote, hfalse, hcolon, hcomma, hclose]
  obtain ⟨fs, hfs, ps, hps, hseps⟩ := hjson
  refine ⟨hfs ▸ newline_notMem_writeFlat fs, ?_⟩
  rw [hfs, hps, iff_false]
  exact not_saysOk_quoted hseps

theorem reports_okJson : Reports okJson True :=
  ⟨by decide +kernel, iff_of_true ⟨ascii "\x7b", ascii "\x7d", rfl⟩ trivial⟩

/-- Whatever a writer goes on to write is on the same line. -/
theorem run_appends (w : JsonWriter) (cs : List JsonWriter.Call) :
    ∃ t, (w.run cs).out = w.out ++ t ∧ (0x0A : UInt8) ∉ t := by
  have hquote : ∀ v, (0x0A : UInt8) ∉ JsonWriter.quote v := fun v => by
    rw [JsonWriter.quote]
    simp [newline_notMem_escaped v, -List.mem_flatMap]
  have hdecimal : ∀ n, (0x0A : UInt8) ∉ decimal n := fun n h =>
    absurd (digit_of_mem_decimal h).1 (by decide)
  have hplain : ∀ t ∈ [ascii ",", ascii ":", ascii "[", ascii "]", ascii "\x7b", ascii "\x7d",
      ascii "true", ascii "false"], (0x0A : UInt8) ∉ t := by decide
  simp only [List.forall_mem_cons, List.not_mem_nil, false_imp_iff, implies_true, and_true]
    at hplain
  obtain ⟨hcomma, hcolon, hopen, hclose, hbrace, hbrace', htrue, hfalse⟩ := hplain
  have hsep : ∀ w : JsonWriter, ∃ t, w.sep.out = w.out ++ t ∧ (0x0A : UInt8) ∉ t := by
    intro w
    rw [JsonWriter.sep]
    rcases w.first with _ | ⟨b, first⟩
    · exact ⟨[], (List.append_nil _).symm, List.not_mem_nil⟩
    · exact ⟨_, rfl, by cases b <;> simp [hcomma]⟩
  have hput : ∀ w u : JsonWriter, ∀ l, (∃ t, u.out = w.out ++ t ∧ (0x0A : UInt8) ∉ t) →
      (0x0A : UInt8) ∉ l → ∃ t, (u.put l).out = w.out ++ t ∧ (0x0A : UInt8) ∉ t := by
    rintro w u l ⟨t, ht, hno⟩ hl
    refine ⟨t ++ l, ?_, List.not_mem_append hno hl⟩
    rw [JsonWriter.put, ht, List.append_assoc]
  have hkey : ∀ (w : JsonWriter) k, ∃ t, (w.key k).out = w.out ++ t ∧ (0x0A : UInt8) ∉ t :=
    fun w k => hput w _ _ (hput w _ _ (hsep w) (hquote k)) hcolon
  have hexec : ∀ (w : JsonWriter) c, ∃ t, (w.exec c).out = w.out ++ t ∧ (0x0A : UInt8) ∉ t := by
    intro w c
    cases c with
    | beginObject => exact hput w _ _ (hsep w) hbrace
    | endObject => exact hput w w _ ⟨[], (List.append_nil _).symm, List.not_mem_nil⟩ hbrace'
    | key k => exact hkey w k
    | beginArray k => exact hput w _ _ (hkey w k) hopen
    | endArray => exact hput w w _ ⟨[], (List.append_nil _).symm, List.not_mem_nil⟩ hclose
    | object k => exact hput w _ _ (hkey w k) hbrace
    | str k v => exact hput w _ _ (hkey w k) (hquote v)
    | num k v => exact hput w _ _ (hkey w k) (hdecimal _)
    | boolean k v => exact hput w _ _ (hkey w k) (by cases v <;> simp [htrue, hfalse])
  induction cs generalizing w with
  | nil => exact ⟨[], (List.append_nil _).symm, List.not_mem_nil⟩
  | cons c cs ih =>
    obtain ⟨t, ht, hno⟩ := hexec w c
    obtain ⟨t', ht', hno'⟩ := ih (w.exec c)
    exact ⟨t ++ t', by rw [← List.append_assoc, ← ht]; exact ht', List.not_mem_append hno hno'⟩

/-- What begins with `"ok":true` is one line that says so. -/
theorem reports_run (cs : List JsonWriter.Call) :
    Reports (JsonWriter.run {} (.beginObject :: .boolean (ascii "ok") true :: cs)).finish True := by
  obtain ⟨t, ht, hno⟩ := run_appends (JsonWriter.beginObject {} |>.boolean (ascii "ok") true) cs
  have hout : (JsonWriter.run {} (.beginObject :: .boolean (ascii "ok") true :: cs)).finish =
      ascii "\x7b\"ok\":true" ++ t := ht
  rw [hout]
  exact ⟨List.not_mem_append (by decide) hno, iff_of_true ⟨ascii "\x7b", t, rfl⟩ trivial⟩

theorem reports_statsJson (store auth : Bool) (q : Stats) (s : Store) :
    Reports (statsJson store auth q s) True :=
  reports_run _

theorem reports_listJson (creds : List Credential) : Reports (listJson creds) True := by
  have hrun : listJson creds = (JsonWriter.run {} (.beginObject :: .boolean (ascii "ok") true ::
      (.beginArray (ascii "creds") :: (Listing.rowsCalls creds ++
        [.endArray, .endObject])))).finish := by
    rw [listJson, Listing.foldl_listRow]
    simp only [JsonWriter.run, JsonWriter.exec, List.foldl_cons, List.foldl_append, List.foldl_nil]
  rw [hrun]
  exact reports_run _

/-- The request does what is asked for, and the reply reports how this ended. -/
def Serves (D : Device) (deps : ServerDeps) (l : Bytes) (m : Cmd Status Unit) (b : World) : Prop :=
  m.Run b (fun _ w' => ∃ r, handleRequest D deps l b = (.ok r, w') ∧ Reports r True)
    (fun _ w' => ∃ r, handleRequest D deps l b = (.ok r, w') ∧ Reports r False)
    fun w' => handleRequest D deps l b = (.died, w')

variable {D deps} {b : World}

theorem serves_reply {l : Bytes} {m : Cmd Status Unit}
    (h : handleRequest D deps l b = Server.reply m b) : Serves D deps l m b := by
  rw [Serves, Run, h, Server.reply, bind_apply, attempt]
  rcases m b with ⟨a | st | _, w'⟩
  · exact ⟨_, rfl, reports_okJson⟩
  · exact ⟨_, rfl, reports_errorJson _ _⟩
  · rfl

theorem serves_withAuth {l : Bytes} {m : Cmd Status Unit}
    (h : handleRequest D deps l = if deps.auth then Server.reply m
      else return errorJson (ascii "no authenticator")) :
    Serves D deps l (withAuth deps m) b := by
  rw [withAuth]
  split_ifs at h ⊢
  · exact serves_reply (congrFun h b)
  · exact ⟨_, congrFun h b, reports_errorJson _ _⟩

theorem serves_delete {l v : Bytes} (h : handleRequest D deps l =
    handleDelete D deps { fields := (Command.delete v).fields, ok := true }) :
    Serves D deps l ((Command.delete v).operation D deps) b := by
  have hget : JsonRequest.get { fields := (Command.delete v).fields, ok := true }
      (ascii "cred_id") = v := rfl
  rw [handleDelete, hget] at h
  rw [Command.operation, withAuth]
  split_ifs at h ⊢
  · rcases hid : unhex v with st | id <;> rw [hid] at h
    · exact ⟨_, congrFun h b, reports_errorJson _ _⟩
    · dsimp only at h ⊢
      split_ifs at h ⊢
      · exact serves_reply (congrFun h b)
      · exact ⟨_, congrFun h b, reports_errorJson _ _⟩
  · exact ⟨_, congrFun h b, reports_errorJson _ _⟩

theorem serves_logLevel {l v : Bytes} (h : handleRequest D deps l =
    pure (handleLogLevel { fields := (Command.logLevel v).fields, ok := true })) :
    Serves D deps l ((Command.logLevel v).operation D deps) b := by
  have hget : JsonRequest.get { fields := (Command.logLevel v).fields, ok := true }
      (ascii "level") = v := rfl
  rw [handleLogLevel, hget] at h
  rw [Command.operation, Serves, run_require, Bool.eq_false_iff, ne_eq, List.contains_iff_mem]
  refine ⟨fun hlevel => ⟨_, congrFun h b, ?_⟩, fun hlevel => ⟨_, congrFun h b, ?_⟩⟩
  · rw [if_pos hlevel]
    exact reports_run [.str (ascii "level") v, .endObject]
  · rw [if_neg hlevel]
    exact reports_errorJson _ _

/-- **A line is served as it was meant.** -/
theorem serves_line (hstats : deps.Prints) (c : Command) :
    Serves D deps c.line (c.operation D deps) b := by
  have hrequest : handleRequest D deps c.line =
      match c with
      | .list => if deps.store then gets fun w => listJson w.store.creds
        else return errorJson (ascii "no store")
      | .stats => gets deps.statsJson
      | .reset => handleReset D deps
      | .quit => pure okJson
      | .delete v => handleDelete D deps { fields := (Command.delete v).fields, ok := true }
      | .logLevel v => pure (handleLogLevel { fields := (Command.logLevel v).fields, ok := true })
      | .setPin v => handleSetPin D deps v := by
    rw [handleRequest, c.parse_line]
    cases c <;> rfl
  cases c with
  | list =>
    rw [Command.operation, Serves, hrequest, run_require]
    dsimp only
    refine ⟨fun hstore => ?_, fun hstore => ?_⟩
    · rw [hstore]
      exact ⟨_, rfl, reports_listJson _⟩
    · rw [hstore]
      exact ⟨_, rfl, reports_errorJson _ _⟩
  | stats =>
    obtain ⟨q, hq⟩ := hstats
    exact ⟨_, congrFun hrequest b, hq b ▸ reports_statsJson _ _ _ _⟩
  | reset => exact serves_withAuth hrequest
  | quit => exact ⟨_, congrFun hrequest b, reports_okJson⟩
  | delete v => exact serves_delete hrequest
  | logLevel v => exact serves_logLevel hrequest
  | setPin v => exact serves_withAuth hrequest

/-- **A line that lost its end changes nothing.** -/
theorem handleRequest_of_isPrefix {c : Command} {l : Bytes} (hl : l <+: c.line)
    (hne : l ≠ c.line) :
    ∃ r, handleRequest D deps l b = (.ok r, b) ∧ Reports r False := by
  have hreject : handleRequest D deps l =
      pure (errorJson (ascii "bad request: " ++ (parseFlatJson l).error)) := by
    rw [handleRequest]
    exact if_pos (Command.not_ok_of_isPrefix hl hne)
  exact ⟨_, congrFun hreject b, reports_errorJson _ _⟩

end Requests

end Cli

end Swpasskey
