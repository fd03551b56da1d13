import Swpasskey.Ctl.JsonWriting
import Swpasskey.Ctl.Quoted
import Swpasskey.Ctl.Replies

/-!
# The reply to `list`

What the server writes for its credentials, as literals with separators behind them. Only the names
of a credential may have braces in them: its other members have none up to the brace that closes its
row.
-/

namespace Swpasskey

open JsonWriter Server

namespace Listing

/-! ### The text of a row -/

/-- Members with string values, in front of other members. -/
def pieces (ms : List (Bytes × Bytes)) : List (Bytes × Bytes) :=
  ms.flatMap fun m => [(m.1, ascii ":"), (m.2, ascii ",")]

/-- The members that are names. -/
def members (c : Credential) : List (Bytes × Bytes) :=
  [(ascii "rp", c.rpId), (ascii "rp_name", c.rpName), (ascii "user", c.userName),
    (ascii "user_display", c.userDisplay)]

/-- The other members. -/
def tailPieces (c : Credential) : List (Bytes × Bytes) :=
  [(ascii "user_id", ascii ":"), (Server.hex c.userId, ascii ","),
    (ascii "cred_id", ascii ":"), (Server.hex c.credId.bytes, ascii ","),
    (ascii "sign_count", 0x3A :: (decimal c.signCount.toNat ++ ascii ",")),
    (ascii "backend", ascii ":"), (backendName c.backend, ascii ","),
    (ascii "created", 0x3A :: (decimal c.createdUnix.toNat ++ ascii ",")),
    (ascii "last_used", 0x3A :: (decimal c.lastUsedUnix.toNat ++ ascii "\x7d"))]

/-- A row up to its last name. -/
def front (c : Credential) : Bytes := 0x7B :: quoted (pieces (members c))

/-- The calls that write a row. -/
def rowCalls (c : Credential) : List JsonWriter.Call :=
  [.str (ascii "rp") c.rpId, .str (ascii "rp_name") c.rpName, .str (ascii "user") c.userName,
    .str (ascii "user_display") c.userDisplay, .str (ascii "user_id") (Server.hex c.userId),
    .str (ascii "cred_id") (Server.hex c.credId.bytes),
    .num (ascii "sign_count") c.signCount.toUInt64,
    .str (ascii "backend") (backendName c.backend), .num (ascii "created") c.createdUnix,
    .num (ascii "last_used") c.lastUsedUnix]

/-- The calls that write the rows. -/
def rowsCalls (creds : List Credential) : List JsonWriter.Call :=
  creds.flatMap fun c => .beginObject :: (rowCalls c ++ [.endObject])

/-- The calls that write the reply, inside its braces. -/
def listCalls (creds : List Credential) : List JsonWriter.Call :=
  .boolean (ascii "ok") true :: .beginArray (ascii "creds") :: (rowsCalls creds ++ [.endArray])

/-- What they write. -/
def rowMembers (c : Credential) : List Bytes :=
  let member k v := quote (ascii k) ++ ascii ":" ++ v
  [member "rp" (quote c.rpId), member "rp_name" (quote c.rpName),
    member "user" (quote c.userName), member "user_display" (quote c.userDisplay),
    member "user_id" (quote (Server.hex c.userId)),
    member "cred_id" (quote (Server.hex c.credId.bytes)),
    member "sign_count" (decimal c.signCount.toUInt64.toNat),
    member "backend" (quote (backendName c.backend)),
    member "created" (decimal c.createdUnix.toNat),
    member "last_used" (decimal c.lastUsedUnix.toNat)]

/-- A row. -/
def rowText (c : Credential) : Bytes := ascii "\x7b" ++ commas (rowMembers c) ++ ascii "\x7d"

variable {c : Credential} {l v s x : Bytes} {ms ps pre post : List (Bytes × Bytes)}

/-- The names of a row, and what is behind them. -/
theorem rowText_eq (c : Credential) : rowText c = front c ++ quoted (tailPieces c) := by
  have hcomma : ascii "," = [0x2C] := rfl
  have hopen : ascii "\x7b" = [0x7B] := rfl
  have hcolon : ascii ":" = [0x3A] := rfl
  simp [rowText, rowMembers, commas, front, quoted, pieces, members, tailPieces, hcomma, hopen,
    hcolon]

theorem listRow_eq (w : JsonWriter) (c : Credential) :
    listRow w c = w.run (.beginObject :: (rowCalls c ++ [.endObject])) := by
  simp only [listRow, rowCalls, run, exec, List.cons_append, List.nil_append, List.foldl_cons,
    List.foldl_nil]

theorem foldl_listRow (w : JsonWriter) (creds : List Credential) :
    creds.foldl listRow w = w.run (rowsCalls creds) := by
  induction creds generalizing w with
  | nil => rfl
  | cons c creds ih =>
    rw [List.foldl_cons, ih, listRow_eq, rowsCalls, rowsCalls, List.flatMap_cons, run_append]

/-- The rows are the siblings in the array. -/
theorem siblings_rows (creds : List Credential) :
    Siblings (rowsCalls creds) (creds.map rowText) := by
  induction creds with
  | nil => exact .nil
  | cons c creds ih =>
    have hrow : Siblings (rowCalls c) (rowMembers c) :=
      .leaf (.str _ _) <| .leaf (.str _ _) <| .leaf (.str _ _) <| .leaf (.str _ _) <|
      .leaf (.str _ _) <| .leaf (.str _ _) <| .leaf (.num _ _) <| .leaf (.str _ _) <|
      .leaf (.num _ _) <| .leaf (.num _ _) .nil
    have hsplit : rowsCalls (c :: creds) =
        [.beginObject] ++ rowCalls c ++ .endObject :: rowsCalls creds := by
      rw [rowsCalls, List.flatMap_cons]
      simp [rowsCalls]
    rw [hsplit]
    exact .container .element hrow ih

/-- What the server writes. -/
theorem listJson_eq (creds : List Credential) : listJson creds =
    ascii "\x7b\"ok\":true," ++ (ascii "\"creds\":[" ++ (commas (creds.map rowText) ++
      ascii "]\x7d")) := by
  have hsiblings : Siblings (listCalls creds) _ :=
    .leaf (.boolean _ _) (.container (.array _) (siblings_rows creds) .nil)
  have hno : ∀ k, JsonWriter.Call.key k ∉ listCalls creds := by
    simp [listCalls, rowsCalls, rowCalls]
  have hrun : listJson creds =
      (run {} (.beginObject :: (listCalls creds ++ [.endObject]))).finish := by
    rw [listJson, foldl_listRow]
    simp only [run, exec, listCalls, List.cons_append, List.foldl_cons, List.foldl_append,
      List.foldl_nil]
  have hok : ascii "\x7b" ++ (quote (ascii "ok") ++ ascii ":" ++ ascii "true") ++ [0x2C] =
      ascii "\x7b\"ok\":true," := rfl
  have hcreds : quote (ascii "creds") ++ ascii ":" ++ ascii "[" = ascii "\"creds\":[" := rfl
  have hclose : ascii "]" ++ ascii "\x7d" = ascii "]\x7d" := rfl
  rw [hrun, (finish_eq_commas_iff hsiblings).mpr hno, ← hok, ← hcreds, ← hclose, if_pos rfl]
  simp only [commas, List.flatMap_cons, List.flatMap_nil, List.append_nil, List.append_assoc,
    List.cons_append, List.nil_append]

/-! ### Keys and values -/

theorem pieces_cons (m : Bytes × Bytes) (ms : List (Bytes × Bytes)) :
    pieces (m :: ms) = (m.1, ascii ":") :: (m.2, ascii ",") :: pieces ms := rfl

theorem pieces_append (ms ms' : List (Bytes × Bytes)) :
    pieces (ms ++ ms') = pieces ms ++ pieces ms' := List.flatMap_append

theorem quoted_pieces_cons (m : Bytes × Bytes) (ms : List (Bytes × Bytes)) :
    quoted (pieces (m :: ms)) =
      quote m.1 ++ ascii ":" ++ quote m.2 ++ (ascii "," ++ quoted (pieces ms)) := by
  simp [pieces_cons, quoted]

/-- A literal is a key or a value. -/
theorem exists_of_pieces_eq (h : pieces ms = pre ++ (s, x) :: post) : ∃ m₁ m m₂,
    ms = m₁ ++ m :: m₂ ∧ (s = m.1 ∧ x = ascii ":" ∨ s = m.2 ∧ x = ascii "," ∧
      pre = pieces m₁ ++ [(m.1, ascii ":")] ∧ post = pieces m₂) := by
  induction ms generalizing pre with
  | nil => exact absurd h.symm (by simp [pieces])
  | cons m ms ih =>
    rw [pieces_cons] at h
    rcases pre with _ | ⟨p, _ | ⟨q, pre⟩⟩
    · obtain ⟨hp, -⟩ := List.cons.inj h
      obtain ⟨rfl, rfl⟩ := Prod.mk.inj hp
      exact ⟨[], m, ms, rfl, .inl ⟨rfl, rfl⟩⟩
    · obtain ⟨rfl, htail⟩ := List.cons.inj h
      obtain ⟨hq, rfl⟩ := List.cons.inj htail
      obtain ⟨rfl, rfl⟩ := Prod.mk.inj hq
      exact ⟨[], m, ms, rfl, .inr ⟨rfl, rfl, rfl, rfl⟩⟩
    · obtain ⟨rfl, htail⟩ := List.cons.inj h
      obtain ⟨rfl, hrest⟩ := List.cons.inj htail
      obtain ⟨m₁, m', m₂, rfl, hcase⟩ := ih hrest
      refine ⟨m :: m₁, m', m₂, rfl, hcase.imp_right ?_⟩
      rintro ⟨hs, hx, rfl, hpost⟩
      exact ⟨hs, hx, rfl, hpost⟩

/-! ### Braces -/

def braces (l : Bytes) : Bytes := l.filter fun a => a = 0x7B ∨ a = 0x7D

theorem mem_braces : (0x7D : UInt8) ∈ braces l ↔ 0x7D ∈ l := by simp [braces]

theorem notMem_of_braces_eq_nil (h : braces l = []) : 0x7B ∉ l ∧ 0x7D ∉ l := by
  rw [braces, List.filter_eq_nil_iff] at h
  exact ⟨fun hmem => h _ hmem (by decide), fun hmem => h _ hmem (by decide)⟩

theorem braces_append (l l' : Bytes) : braces (l ++ l') = braces l ++ braces l' :=
  List.filter_append l l'

/-- Braces are not escaped, and no escape has any. -/
theorem braces_quote (v : Bytes) : braces (quote v) = braces v := by
  have hescape : ∀ b : UInt8, braces (escape b) = braces [b] := forall_byte (by decide +kernel)
  have hflat : braces (v.flatMap escape) = braces v := by
    induction v with
    | nil => rfl
    | cons b v ih =>
      rw [List.flatMap_cons, braces_append, ih, hescape, ← braces_append, List.singleton_append]
  have hq : ∀ l, braces (0x22 :: l) = braces l := fun l => List.filter_cons_of_neg (by decide)
  rw [quote, List.cons_append, hq, braces_append, hflat]
  exact List.append_nil _

theorem braces_quoted (h : ∀ p ∈ ps, braces p.1 = [] ∧ braces p.2 = []) :
    braces (quoted ps) = [] := by
  induction ps with
  | nil => rfl
  | cons p ps ih =>
    obtain ⟨⟨hs, hx⟩, hps⟩ := List.forall_mem_cons.mp h
    rw [quoted, List.flatMap_cons, braces_append, braces_append, braces_quote, hs, hx]
    exact ih hps

theorem braces_pieces (h : ∀ m ∈ ms, braces m.1 = []) :
    braces (quoted (pieces ms)) = braces (ms.map Prod.snd).flatten := by
  induction ms with
  | nil => rfl
  | cons m ms ih =>
    obtain ⟨hm, hms⟩ := List.forall_mem_cons.mp h
    have hcolon : braces (ascii ":") = [] := by decide
    have hcomma : braces (ascii ",") = [] := by decide
    rw [quoted_pieces_cons]
    simp only [braces_append, braces_quote, hm, hcolon, hcomma, ih hms, List.nil_append,
      List.map_cons, List.flatten_cons]

/-! ### The literals of a row -/

/-- The keys of a row. -/
def allKeys : List Bytes :=
  [ascii "rp", ascii "rp_name", ascii "user", ascii "user_display", ascii "user_id",
    ascii "cred_id", ascii "sign_count", ascii "backend", ascii "created", ascii "last_used"]

/-- No key is the end of another one. -/
theorem allKeys_spec : allKeys.Nodup ∧ ∀ k ∈ allKeys, IsKey k ∧ braces k = [] ∧
    ∀ a ∈ allKeys, EndsIn a k → a = k := by decide +kernel

/-- The literals with a colon behind them. -/
def keysOf (ps : List (Bytes × Bytes)) : List Bytes :=
  (ps.filter fun p => p.2.head? = some 0x3A).map Prod.fst

theorem keysOf_append (ps qs : List (Bytes × Bytes)) :
    keysOf (ps ++ qs) = keysOf ps ++ keysOf qs := by
  rw [keysOf, List.filter_append, List.map_append]
  rfl

theorem keysOf_row (c : Credential) : keysOf (pieces (members c) ++ tailPieces c) = allKeys := rfl

theorem keysOf_names (c : Credential) : keysOf (pieces (members c)) = allKeys.take 4 := rfl

theorem mem_keysOf {p : Bytes × Bytes} (hp : p ∈ ps) (hcolon : p.2.head? = some 0x3A) :
    p.1 ∈ keysOf ps :=
  List.mem_map_of_mem (List.mem_filter.mpr ⟨hp, by rw [hcolon]; rfl⟩)

/-- What is written in hexadecimal is neither escaped nor a brace. -/
theorem hex_spec (v : Bytes) : IsPlain (Server.hex v) ∧ braces (Server.hex v) = [] := by
  have hbyte : ∀ b : UInt8, IsPlain [hexChar (b >>> 4), hexChar (b &&& 15)] ∧
      braces [hexChar (b >>> 4), hexChar (b &&& 15)] = [] := forall_byte (by decide +kernel)
  induction v with
  | nil => exact ⟨fun c hc => absurd hc List.not_mem_nil, rfl⟩
  | cons b v ih =>
    obtain ⟨hplain, hbraces⟩ := hbyte b
    rw [Server.hex, List.flatMap_cons]
    refine ⟨fun c hc => ?_, ?_⟩
    · exact (List.mem_append.mp hc).elim (hplain c) (ih.1 c)
    · rw [braces_append, hbraces]
      exact ih.2

theorem backendName_spec (b : BackendKind) :
    IsPlain (backendName b) ∧ braces (backendName b) = [] := by
  cases b <;> decide +kernel

theorem braces_decimal (n : ℕ) : braces (decimal n) = [] := by
  rw [braces, List.filter_eq_nil_iff]
  intro c hc
  have hdigit := digit_of_mem_decimal hc
  simp only [decide_eq_true_eq]
  rintro (rfl | rfl) <;> exact absurd hdigit (by decide)

theorem isSeparator_colon : IsSeparator (ascii ":") := ⟨by decide, .inl rfl⟩

theorem isSeparator_comma : IsSeparator (ascii ",") := ⟨by decide, .inr rfl⟩

theorem isSeparator_decimal (n : ℕ) {x : Bytes} (hx : (0x22 : UInt8) ∉ x) :
    IsSeparator (0x3A :: (decimal n ++ x)) := by
  have hquote : (0x22 : UInt8) ∉ decimal n := fun h =>
    absurd (digit_of_mem_decimal h) (by decide)
  exact ⟨by simp [hquote, hx], .inl rfl⟩

theorem separators_pieces (ms : List (Bytes × Bytes)) : ∀ p ∈ pieces ms, IsSeparator p.2 := by
  intro p hp
  obtain ⟨m, -, hm⟩ := List.mem_flatMap.mp hp
  simp only [List.mem_cons, List.not_mem_nil, or_false] at hm
  rcases hm with rfl | rfl
  · exact isSeparator_colon
  · exact isSeparator_comma

theorem separators_tail (c : Credential) : ∀ p ∈ tailPieces c, IsSeparator p.2 := by
  have hcolon := isSeparator_colon
  have hcomma := isSeparator_comma
  have hnum := fun n => isSeparator_decimal n isSeparator_comma.1
  have hlast : (0x22 : UInt8) ∉ ascii "\x7d" := by decide
  simp only [tailPieces, List.forall_mem_cons]
  exact ⟨hcolon, hcomma, hcolon, hcomma, hnum _, hcolon, hcomma, hnum _,
    isSeparator_decimal _ hlast, fun p hp => absurd hp List.not_mem_nil⟩

/-- The tail of a row has one brace, at its end. -/
theorem tail_eq (c : Credential) : ∃ body, quoted (tailPieces c) = body ++ [0x7D] ∧
    braces body = [] := by
  have hcolon : braces (ascii ":") = [] := by decide
  have hcomma : braces (ascii ",") = [] := by decide
  have hkey : ∀ k ∈ allKeys, braces k = [] := fun k hk => (allKeys_spec.2 k hk).2.1
  simp only [allKeys, List.forall_mem_cons] at hkey
  obtain ⟨-, -, -, -, huser, hcred, hcount, hname, hcreated, hused, -⟩ := hkey
  have hnum : ∀ n, braces (0x3A :: (decimal n ++ ascii ",")) = [] := fun n => by
    rw [← List.singleton_append, braces_append, braces_append, braces_decimal, hcomma]
    rfl
  have hsplit : quoted (tailPieces c) = quoted ((tailPieces c).take 8) ++
      (quote (ascii "last_used") ++ 0x3A :: (decimal c.lastUsedUnix.toNat ++ [0x7D])) := by
    rw [tailPieces]
    simp [quoted, ascii]
  refine ⟨quoted ((tailPieces c).take 8) ++ (quote (ascii "last_used") ++
    0x3A :: decimal c.lastUsedUnix.toNat), ?_, ?_⟩
  · rw [hsplit]
    simp only [List.append_assoc, List.cons_append]
  · have hinit : braces (quoted ((tailPieces c).take 8)) = [] := by
      refine braces_quoted ?_
      simp only [tailPieces, List.take_succ_cons, List.take_zero, List.forall_mem_cons]
      exact ⟨⟨huser, hcolon⟩, ⟨(hex_spec _).2, hcomma⟩, ⟨hcred, hcolon⟩, ⟨(hex_spec _).2, hcomma⟩,
        ⟨hcount, hnum _⟩, ⟨hname, hcolon⟩, ⟨(backendName_spec _).2, hcomma⟩, ⟨hcreated, hnum _⟩,
        fun p hp => absurd hp List.not_mem_nil⟩
    rw [braces_append, hinit, braces_append, braces_quote, hused, ← List.singleton_append,
      braces_append, braces_decimal]
    rfl

end Listing

end Swpasskey
