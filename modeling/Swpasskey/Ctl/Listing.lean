import Swpasskey.Ctl.Cli
import Swpasskey.Ctl.ListReply

/-!
# What `swpasskeyctl list` shows

The tool cuts the reply at braces, and names may have braces in them: a `}` ends the object too
early, and a `{` behind it begins another one. A piece that was cut short is a line of its own if a
name in it reads `"cred_id"` with the quote behind it, and the credential itself is shown if a piece
is open where its names end.
-/

namespace Swpasskey

open JsonWriter Text Server Cli

namespace Listing

/-! ### What is to be shown -/

/-- The names in a credential, which may be any text. -/
def names (c : Credential) : List Bytes := [c.rpId, c.rpName, c.userName, c.userDisplay]

/-- Every closing brace is followed by an opening one. -/
def Reopens (v : Bytes) : Prop := ∀ a b, v = a ++ 0x7D :: b → 0x7B ∈ b

/-- The names do not break the reply for the tool: the closing braces in them are all reopened; and
where they are up to a name that is `cred_id`, or ends in that behind a quote, no brace is closed in
the names behind it. -/
structure Unambiguous (c : Credential) : Prop where
  reopens : Reopens (names c).flatten
  keepsMark : ∀ pre v post, names c = pre ++ v :: post → EndsIn (ascii "cred_id") v →
    Reopens (pre.flatten ++ v) → 0x7D ∉ post.flatten

/-- The columns that the claim of a row is about. -/
def shown (r : Row) : Bytes × Bytes × Bytes := (r.credId, r.count, r.backend)

/-- What they are for a credential. -/
def expected (c : Credential) : Bytes × Bytes × Bytes :=
  ((Server.hex c.credId.bytes).take 12, decimal c.signCount.toNat, backendName c.backend)

/-- The tool prints one row for each credential, in order, and their number. -/
def ShowsAll (localTime : Bytes → Bytes) (creds : List Credential) : Prop :=
  ∃ rows, printList localTime (listJson creds) = .table rows creds.length ∧
    rows.map shown = creds.map expected

variable {localTime : Bytes → Bytes} {c : Credential} {creds : List Credential}

/-! ### What is open -/

section Open

variable {l v : Bytes} {ms : List (Bytes × Bytes)}

theorem isOpen_braces (i : Bool) (l : Bytes) :
    isOpen 0x7B 0x7D i (braces l) = isOpen 0x7B 0x7D i l := isOpen_filter i l

theorem reopens_cons (c : UInt8) (v : Bytes) :
    Reopens (c :: v) ↔ (c = 0x7D → 0x7B ∈ v) ∧ Reopens v := by
  constructor
  · intro h
    exact ⟨fun hc => h [] v (by rw [hc]; rfl), fun a b hv => h (c :: a) b (by rw [hv]; rfl)⟩
  · rintro ⟨hc, hv⟩ a b hab
    cases a with
    | nil =>
      obtain ⟨rfl, rfl⟩ := List.cons.inj hab
      exact hc rfl
    | cons a₁ a =>
      obtain ⟨-, rfl⟩ := List.cons.inj hab
      exact hv a b rfl

theorem isOpen_eq_true (i : Bool) (v : Bytes) :
    isOpen 0x7B 0x7D i v = true ↔ Reopens v ∧ (i = true ∨ 0x7B ∈ v) := by
  induction v generalizing i with
  | nil =>
    have hnil : Reopens [] := fun a b h => absurd h (by simp)
    simp [isOpen, hnil]
  | cons c v ih =>
    rw [isOpen_cons, ih, reopens_cons, List.mem_cons]
    by_cases ho : c = 0x7B
    · simp [ho]
    · by_cases hc : c = 0x7D
      · simp [hc]
        tauto
      · simp [ho, hc, Ne.symm ho]

/-- A piece is open behind a text exactly when its closing braces are reopened. -/
theorem isOpen_iff (v : Bytes) : isOpen 0x7B 0x7D true v = true ↔ Reopens v := by
  rw [isOpen_eq_true]
  simp

end Open

/-! ### Pieces that are cut short -/

section Marks

variable {ms : List (Bytes × Bytes)}

/-- The keys do not look like braces or marks. -/
def Harmless (ms : List (Bytes × Bytes)) : Prop :=
  ∀ m ∈ ms, braces m.1 = [] ∧ ¬ EndsIn (ascii "cred_id") m.1

theorem isKey_credId : IsKey (ascii "cred_id") := (allKeys_spec.2 _ (by simp [allKeys])).1

theorem mark_eq : ascii "\"cred_id\"" = 0x22 :: (ascii "cred_id" ++ [0x22]) := rfl

/-- The mark `"cred_id"` in the names of a row is the end of a value. -/
theorem exists_of_mark {a z : Bytes} (hms : Harmless ms)
    (h : quoted (pieces ms) = a ++ 0x22 :: (ascii "cred_id" ++ 0x22 :: z)) : ∃ m₁ m m₂,
    ms = m₁ ++ m :: m₂ ∧ EndsIn (ascii "cred_id") m.2 ∧
      a ++ 0x22 :: (ascii "cred_id" ++ [0x22]) =
        quoted (pieces m₁) ++ (quote m.1 ++ ascii ":" ++ quote m.2) ∧
      z = ascii "," ++ quoted (pieces m₂) := by
  have hsep : ∀ p ∈ pieces ms, (0x22 : UInt8) ∉ p.2 ∧ p.2 ≠ ascii "cred_id" := fun p hp =>
    ⟨(separators_pieces ms p hp).1, (separators_pieces ms p hp).ne_key isKey_credId⟩
  obtain ⟨pre, s, x, post, hsplit, hs, -, heq, hz⟩ := exists_of_quoted_eq isKey_credId.1 hsep h
  obtain ⟨m₁, m, m₂, rfl, ⟨rfl, -⟩ | ⟨rfl, rfl, rfl, rfl⟩⟩ := exists_of_pieces_eq hsplit
  · exact absurd hs (hms m (by simp)).2
  · refine ⟨m₁, m, m₂, rfl, hs, ?_, hz⟩
    rw [heq, quoted_append]
    simp [quoted]

/-- What is open behind a value. -/
theorem braces_value (hms : Harmless ms) {m₁ m₂ : List (Bytes × Bytes)} {m : Bytes × Bytes}
    (hsplit : ms = m₁ ++ m :: m₂) :
    braces (quoted (pieces m₁) ++ (quote m.1 ++ ascii ":" ++ quote m.2)) =
        braces ((m₁.map Prod.snd).flatten ++ m.2) ∧
      braces (ascii "," ++ quoted (pieces m₂)) = braces (m₂.map Prod.snd).flatten := by
  subst hsplit
  have hcolon : braces (ascii ":") = [] := by decide
  have hcomma : braces (ascii ",") = [] := by decide
  have hkeys : ∀ a ∈ m₁ ++ m :: m₂, braces a.1 = [] := fun a ha => (hms a ha).1
  constructor
  · rw [braces_append, braces_pieces fun a ha => hkeys a (by simp [ha])]
    simp only [braces_append, braces_quote, hkeys m (by simp), hcolon, List.nil_append]
  · rw [braces_append, hcomma, braces_pieces fun a ha => hkeys a (by simp [ha]), List.nil_append]

/-- The text up to the end of a mark inside a piece that is closed behind it. -/
theorem exists_of_isCred {l s : Bytes} (hs : s ∈ cuts 0x7B 0x7D none (0x7B :: l))
    (hcred : isCred s = true) : ∃ a z, l = a ++ 0x22 :: (ascii "cred_id" ++ 0x22 :: z) ∧
      isOpen 0x7B 0x7D true (a ++ 0x22 :: (ascii "cred_id" ++ [0x22])) = true ∧ 0x7D ∈ z := by
  obtain ⟨x, y, z, hl, rfl, hy⟩ := exists_of_mem_cuts hs
  rw [isCred, isSome_find, mark_eq] at hcred
  obtain ⟨p, q, hpq⟩ := hcred
  -- the mark begins behind the brace and ends in front of the other one
  obtain ⟨p, rfl⟩ : ∃ p', p = 0x7B :: p' := by
    cases p with
    | nil => exact absurd (List.cons.inj hpq).1 (by decide)
    | cons b p => exact ⟨p, by rw [(List.cons.inj hpq).1]⟩
  obtain ⟨q, rfl, rfl⟩ : ∃ q', q = q' ++ [0x7D] ∧
      p ++ 0x22 :: (ascii "cred_id" ++ [0x22]) ++ q' = y := by
    rcases List.eq_nil_or_concat q with rfl | ⟨q, b, rfl⟩
    · have hlast : 0x7B :: p ++ 0x22 :: ascii "cred_id" ++ [0x22] = 0x7B :: y ++ [0x7D] := by
        simpa using hpq
      exact absurd (List.append_inj' hlast rfl).2 (by decide)
    · rw [List.concat_eq_append, ← List.append_assoc] at hpq
      obtain ⟨hy', hb⟩ := List.append_inj' hpq rfl
      refine ⟨q, by rw [List.concat_eq_append, hb], ?_⟩
      rw [List.append_assoc, List.cons_append] at hy'
      rw [List.append_assoc]
      exact (List.cons.inj hy').2
  have hall : 0x7B :: l =
      x ++ 0x7B :: p ++ 0x22 :: (ascii "cred_id" ++ 0x22 :: (q ++ 0x7D :: z)) := by
    rw [hl]
    simp
  obtain ⟨a, ha, hbehind⟩ := exists_of_cons_eq hall (by decide)
  refine ⟨a, q ++ 0x7D :: z, hbehind, ?_, by simp⟩
  have hopen : ∀ l, isOpen 0x7B 0x7D true l = isOpen 0x7B 0x7D false ((0x7B : UInt8) :: l) :=
    fun l => rfl
  rw [hopen, ← List.cons_append, ← ha, List.append_assoc, isOpen_append, List.cons_append,
    isOpen_cons, if_pos rfl]
  exact isOpen_of_notMem fun hmem => hy (List.mem_append_left _ hmem)

/-- A piece that is cut short in the names has a mark in it exactly when a value ends in one where a
piece is open, and a brace is closed behind. -/
theorem exists_isCred_iff (hms : Harmless ms) :
    (∃ s ∈ cuts 0x7B 0x7D none (0x7B :: quoted (pieces ms)), isCred s = true) ↔
      ∃ m₁ m m₂, ms = m₁ ++ m :: m₂ ∧ EndsIn (ascii "cred_id") m.2 ∧
        Reopens ((m₁.map Prod.snd).flatten ++ m.2) ∧ 0x7D ∈ (m₂.map Prod.snd).flatten := by
  constructor
  · rintro ⟨s, hs, hcred⟩
    obtain ⟨a, z, hl, hopen, hz⟩ := exists_of_isCred hs hcred
    obtain ⟨m₁, m, m₂, hsplit, hends, heq, rfl⟩ := exists_of_mark hms hl
    obtain ⟨hvalue, hbehind⟩ := braces_value hms hsplit
    refine ⟨m₁, m, m₂, hsplit, hends, ?_, ?_⟩
    · rw [← isOpen_iff, ← isOpen_braces, ← hvalue, ← heq, isOpen_braces]
      exact hopen
    · rw [← mem_braces, ← hbehind, mem_braces]
      exact hz
  · rintro ⟨m₁, m, m₂, hsplit, hends, hreopens, hclosed⟩
    obtain ⟨hvalue, hbehind⟩ := braces_value hms hsplit
    obtain ⟨front, hfront⟩ : ∃ front,
        front = quoted (pieces m₁) ++ (quote m.1 ++ ascii ":" ++ quote m.2) := ⟨_, rfl⟩
    rw [← hfront] at hvalue
    have htext : quoted (pieces ms) = front ++ (ascii "," ++ quoted (pieces m₂)) := by
      rw [hsplit, pieces_append, quoted_append, quoted_pieces_cons, hfront]
      simp only [List.append_assoc]
    -- a piece is open behind the mark, and the mark is in it
    have hopen : (opened 0x7B 0x7D none (0x7B :: front)).isSome = true := by
      rw [isSome_opened (by decide), isOpen_cons, if_pos rfl, ← isOpen_braces, hvalue,
        isOpen_braces, isOpen_iff]
      exact hreopens
    obtain ⟨piece, hpiece⟩ := Option.isSome_iff_exists.mp hopen
    obtain ⟨x, y, hxy, rfl⟩ := exists_of_opened hpiece
    have hmark : 0x22 :: (ascii "cred_id" ++ [0x22]) <:+ 0x7B :: y := by
      have hsuffix : 0x22 :: (ascii "cred_id" ++ [0x22]) <:+ x ++ 0x7B :: y := by
        rw [← hxy, hfront]
        refine (hends.suffix_quote isKey_credId.1).trans ?_
        exact ⟨0x7B :: (quoted (pieces m₁) ++ (quote m.1 ++ ascii ":")), by simp⟩
      rcases List.suffix_or_suffix_of_suffix hsuffix (List.suffix_append x _) with h | h
      · exact h
      · exact absurd (h.subset List.mem_cons_self) (by decide)
    have hclose : 0x7D ∈ ascii "," ++ quoted (pieces m₂) := by
      rw [← mem_braces, hbehind, mem_braces]
      exact hclosed
    obtain ⟨u, v, huv, hu⟩ := List.eq_append_cons_of_mem hclose
    refine ⟨0x7B :: y ++ u ++ [0x7D], ?_, ?_⟩
    · rw [htext, ← List.cons_append, cuts_append, hpiece, huv, cuts_some_append_cons hu]
      exact List.mem_append_right _ List.mem_cons_self
    · rw [isCred, isSome_find, mark_eq, List.append_assoc]
      exact hmark.isInfix.trans (List.prefix_append _ _).isInfix

end Marks

/-! ### The fields of a row -/

section Fields

variable {obj key l v x f : Bytes} {ps t₁ t₂ : List (Bytes × Bytes)} {n : ℕ}

theorem field_of_find (h : find (0x22 :: key ++ ascii "\":") obj =
    some (0x22 :: key ++ ascii "\":" ++ l)) : field obj key =
      if l.head? = some 0x22 then l.tail.takeWhile (· ≠ 0x22)
      else l.takeWhile fun c => c ≠ 0x2C ∧ c ≠ 0x7D := by
  rw [field, h]
  simp only [List.drop_left]

/-- A string without escapes is read back. -/
theorem field_str (hv : IsPlain v) (h : find (0x22 :: key ++ ascii "\":") obj =
    some (0x22 :: key ++ ascii "\":" ++ quoted ((v, x) :: ps))) : field obj key = v := by
  rw [field_of_find h, quoted_cons, List.head?_cons, if_pos rfl, List.tail_cons,
    hv.flatMap_escape, List.takeWhile_append_of_pos, List.takeWhile_cons_of_neg (by simp),
    List.append_nil]
  exact fun c hc => by simpa using ne_of_mem_of_not_mem hc hv.quote_notMem

/-- A number is read back. -/
theorem field_num (h : find (0x22 :: key ++ ascii "\":") obj =
    some (0x22 :: key ++ ascii "\":" ++ (decimal n ++ ascii "," ++ l))) :
    field obj key = decimal n := by
  have hbyte : ∀ c : UInt8, 0x30 ≤ c ∧ c ≤ 0x39 → c ≠ 0x22 ∧ c ≠ 0x2C ∧ c ≠ 0x7D :=
    forall_byte (by decide +kernel)
  have hdigit := fun c (hc : c ∈ decimal n) => hbyte c (digit_of_mem_decimal hc)
  have hhead : (decimal n ++ ascii "," ++ l).head? ≠ some 0x22 := by
    obtain ⟨d, ds, hd⟩ := List.exists_cons_of_ne_nil (decimal_ne_nil n)
    rw [hd]
    intro h
    have hd' : d ∈ decimal n := by rw [hd]; exact List.mem_cons_self
    exact (hdigit d hd').1 (Option.some.inj h)
  have hcomma : ascii "," ++ l = 0x2C :: l := rfl
  rw [field_of_find h, if_neg hhead, List.append_assoc, hcomma, List.takeWhile_append_of_pos,
    List.takeWhile_cons_of_neg (by simp), List.append_nil]
  exact fun c hc => by simpa using (hdigit c hc).2

/-- The search for a key of the tail, where a piece is open in front of it. -/
theorem find_tail {k : Bytes} (htail : tailPieces c = t₁ ++ (k, 0x3A :: x) :: t₂)
    (hopen : opened 0x7B 0x7D none (front c) = some f) :
    find (0x22 :: k ++ ascii "\":") (f ++ quoted (tailPieces c)) =
      some (0x22 :: k ++ ascii "\":" ++ (x ++ quoted t₂)) := by
  obtain ⟨u, y, hfront, rfl⟩ := exists_of_opened hopen
  have hf : (0x7B : UInt8) :: quoted (pieces (members c) ++ t₁) =
      u ++ (0x7B :: y ++ quoted t₁) := by
    rw [quoted_append, ← List.cons_append, ← List.append_assoc, ← hfront]
    rfl
  have hsep : ∀ p ∈ pieces (members c) ++ t₁ ++ (k, 0x3A :: x) :: t₂, IsSeparator p.2 := by
    intro p hp
    rw [List.append_assoc, ← htail, List.mem_append] at hp
    exact hp.elim (separators_pieces _ p) (separators_tail c p)
  -- the key is not that of an earlier member
  have hkeys : keysOf (pieces (members c) ++ t₁) ++ k :: keysOf t₂ = allKeys := by
    rw [← keysOf_row c, htail, ← List.append_assoc, keysOf_append _ (_ :: _)]
    rfl
  obtain ⟨hnodup, hspec⟩ := allKeys_spec
  have hk : k ∈ allKeys := by
    rw [← hkeys]
    exact List.mem_append_right _ List.mem_cons_self
  rw [← hkeys] at hnodup
  have hfirst : k ∉ keysOf (pieces (members c) ++ t₁) := fun hmem =>
    (List.nodup_cons.mp (List.nodup_middle.mp hnodup)).1 (List.mem_append_left _ hmem)
  rw [htail, quoted_append, ← List.append_assoc]
  refine find_key (hspec k hk).1 (by decide) hsep (fun p hp hcolon hends => ?_) hf
  have hmem := mem_keysOf hp hcolon
  have hall : p.1 ∈ allKeys := by
    rw [← hkeys]
    exact List.mem_append_left _ hmem
  rw [← (hspec p.1 hall).2.2 k hk hends] at hmem
  exact hfirst hmem

/-- Where a piece is open behind the names, the credential itself is shown. -/
theorem shown_row (localTime : Bytes → Bytes) (hopen : opened 0x7B 0x7D none (front c) = some f) :
    shown (row localTime (f ++ quoted (tailPieces c))) = expected c := by
  have hcredId : field (f ++ quoted (tailPieces c)) (ascii "cred_id") =
      Server.hex c.credId.bytes := by
    have htail : tailPieces c = (tailPieces c).take 2 ++ (ascii "cred_id", [0x3A]) ::
        (Server.hex c.credId.bytes, ascii ",") :: (tailPieces c).drop 4 := rfl
    have hfind := find_tail htail hopen
    rw [List.nil_append] at hfind
    exact field_str (hex_spec _).1 hfind
  have hcount : field (f ++ quoted (tailPieces c)) (ascii "sign_count") =
      decimal c.signCount.toNat := by
    have htail : tailPieces c = (tailPieces c).take 4 ++
        (ascii "sign_count", 0x3A :: (decimal c.signCount.toNat ++ ascii ",")) ::
          (tailPieces c).drop 5 := rfl
    exact field_num (find_tail htail hopen)
  have hbackend : field (f ++ quoted (tailPieces c)) (ascii "backend") = backendName c.backend := by
    have htail : tailPieces c = (tailPieces c).take 5 ++ (ascii "backend", [0x3A]) ::
        (backendName c.backend, ascii ",") :: (tailPieces c).drop 7 := rfl
    have hfind := find_tail htail hopen
    rw [List.nil_append] at hfind
    exact field_str (backendName_spec _).1 hfind
  rw [shown, row, expected, hcredId, hcount, hbackend]

/-- A piece that is cut short has no count. -/
theorem count_eq_nil {s : Bytes} (hs : s ∈ cuts 0x7B 0x7D none (front c)) :
    field s (ascii "sign_count") = [] := by
  have hnone : find (0x22 :: ascii "sign_count" ++ ascii "\":") s = none := by
    rw [← Option.not_isSome_iff_eq_none, isSome_find]
    rintro ⟨p, q, rfl⟩
    obtain ⟨x, y, z, hfront, hs, -⟩ := exists_of_mem_cuts hs
    have hall : front c = x ++ p ++ 0x22 :: (ascii "sign_count" ++ 0x22 :: 0x3A :: (q ++ z)) := by
      have hascii : ascii "\":" = [0x22, 0x3A] := rfl
      have hcut : front c = x ++ (0x7B :: y ++ [0x7D]) ++ z := by
        rw [hfront]
        simp
      rw [hcut, ← hs, hascii]
      simp
    obtain ⟨a, -, hbehind⟩ := exists_of_cons_eq hall (by decide)
    have hcount : ascii "sign_count" ∈ allKeys := by simp [allKeys]
    obtain ⟨pre, s, x, post, hsplit, hends, -, hcolon⟩ :=
      exists_of_key_eq (allKeys_spec.2 _ hcount).1 (separators_pieces _) hbehind
    have hmem : (s, x) ∈ pieces (members c) := by
      rw [hsplit]
      simp
    have hname : s ∈ keysOf (pieces (members c)) := mem_keysOf hmem hcolon
    rw [keysOf_names] at hname
    rw [← (allKeys_spec.2 s (List.mem_of_mem_take hname)).2.2 _ hcount hends] at hname
    exact absurd hname (by decide)
  rw [field, hnone]

end Fields

/-! ### The rows -/

section Rows

variable (localTime c)

/-- The rows of the pieces that are cut short in the names. -/
def shortRows : List Row := rows localTime (cuts 0x7B 0x7D none (front c))

/-- The row of the piece that is open behind the names. -/
def lastRow : List Row :=
  match opened 0x7B 0x7D none (front c) with
  | none => []
  | some f => [row localTime (f ++ quoted (tailPieces c))]

/-- The rows that are printed for a credential. -/
def rowsOf : List Row := shortRows localTime c ++ lastRow localTime c

variable {localTime c} {l l' : List Bytes}

theorem rows_append (l l' : List Bytes) :
    rows localTime (l ++ l') = rows localTime l ++ rows localTime l' := by
  rw [rows, List.filter_append, List.map_append]
  rfl

/-- The tail of a row has the mark in it. -/
theorem isCred_tail (f : Bytes) (c : Credential) : isCred (f ++ quoted (tailPieces c)) = true := by
  have htail : tailPieces c =
      (tailPieces c).take 2 ++ (ascii "cred_id", ascii ":") :: (tailPieces c).drop 3 := rfl
  rw [isCred, isSome_find, mark_eq, htail, quoted_append, quoted_cons,
    isKey_credId.1.flatMap_escape]
  exact ⟨f ++ quoted ((tailPieces c).take 2), ascii ":" ++ quoted ((tailPieces c).drop 3), by simp⟩

/-- The pieces of a row. -/
theorem cuts_rowText (localTime : Bytes → Bytes) (c : Credential) :
    rows localTime (cuts 0x7B 0x7D none (rowText c)) = rowsOf localTime c ∧
      opened 0x7B 0x7D none (rowText c) = none := by
  obtain ⟨body, htail, hbody⟩ := tail_eq c
  obtain ⟨hopen, hclose⟩ := notMem_of_braces_eq_nil hbody
  rw [rowText_eq, cuts_append, opened_append, rows_append, rowsOf, lastRow]
  cases hfront : opened 0x7B 0x7D none (front c) with
  | none =>
    have hno : (0x7B : UInt8) ∉ quoted (tailPieces c) := by
      rw [htail]
      simp [hopen]
    rw [cuts_none hno, opened_none hno]
    exact ⟨rfl, rfl⟩
  | some f =>
    have hcred := isCred_tail f c
    rw [htail] at hcred ⊢
    have hlast : rows localTime [f ++ (body ++ [0x7D])] =
        [row localTime (f ++ (body ++ [0x7D]))] := by
      rw [rows, List.filter_cons_of_pos hcred]
      rfl
    rw [cuts_some_append_cons hclose, opened_some_append_cons hclose, List.append_assoc,
      cuts_nil, hlast]
    exact ⟨rfl, rfl⟩

/-- The pieces of rows with commas in front of them. -/
theorem cuts_rows (localTime : Bytes → Bytes) (creds : List Credential) :
    rows localTime (cuts 0x7B 0x7D none ((creds.map rowText).flatMap fun t => 0x2C :: t)) =
        creds.flatMap (rowsOf localTime) ∧
      opened 0x7B 0x7D none ((creds.map rowText).flatMap fun t => 0x2C :: t) = none := by
  induction creds with
  | nil => exact ⟨rfl, rfl⟩
  | cons c creds ih =>
    have hne : ¬ (0x2C : UInt8) = 0x7B := by decide
    have hcuts : cuts 0x7B 0x7D none (0x2C :: rowText c) = cuts 0x7B 0x7D none (rowText c) := by
      rw [cuts_none_cons, if_neg hne]
    have hopened : opened 0x7B 0x7D none (0x2C :: rowText c) = none := by
      rw [opened_none_cons, if_neg hne]
      exact (cuts_rowText localTime c).2
    rw [List.map_cons, List.flatMap_cons, List.flatMap_cons, cuts_append, opened_append, hcuts,
      hopened, rows_append, (cuts_rowText localTime c).1, ih.1]
    exact ⟨rfl, ih.2⟩

theorem cuts_commas (localTime : Bytes → Bytes) (creds : List Credential) :
    rows localTime (cuts 0x7B 0x7D none (commas (creds.map rowText))) =
        creds.flatMap (rowsOf localTime) ∧
      opened 0x7B 0x7D none (commas (creds.map rowText)) = none := by
  cases creds with
  | nil => exact ⟨rfl, rfl⟩
  | cons c creds =>
    have hrow := cuts_rowText localTime c
    have hrows := cuts_rows localTime creds
    rw [List.map_cons, commas, cuts_append, opened_append, hrow.2, rows_append, hrow.1, hrows.1]
    exact ⟨rfl, hrows.2⟩

/-- The table of a reply. -/
theorem printList_listJson (localTime : Bytes → Bytes) (creds : List Credential) :
    printList localTime (listJson creds) = .table (creds.flatMap (rowsOf localTime))
      (creds.flatMap (rowsOf localTime)).length := by
  have hfind : ∀ l, find (ascii "\"creds\":[") (ascii "\x7b\"ok\":true," ++ l) =
      find (ascii "\"creds\":[") l := by
    intro l
    simp [ascii, find_cons, List.cons_prefix_cons]
  have hstart : (0x7B : UInt8) ∉ ascii "\"creds\":[" := by decide
  have hend : (0x7B : UInt8) ∉ ascii "]\x7d" := by decide
  obtain ⟨hrows, hopened⟩ := cuts_commas localTime creds
  rw [printList, listJson_eq, hfind, find_of_prefix (List.prefix_append _ _)]
  dsimp only
  rw [foldl_printObject, objects_eq_cuts, cuts_append, cuts_none hstart, opened_none hstart,
    List.nil_append, cuts_append, hopened, cuts_none hend, List.append_nil, hrows]

/-! ### All of them -/

theorem length_lastRow_le : (lastRow localTime c).length ≤ 1 := by
  rw [lastRow]
  cases opened 0x7B 0x7D none (front c) <;> simp

theorem count_of_mem_shortRows {r : Row} (hr : r ∈ shortRows localTime c) : r.count = [] := by
  rw [shortRows, rows, List.mem_map] at hr
  obtain ⟨s, hs, rfl⟩ := hr
  exact count_eq_nil (List.mem_of_mem_filter hs)

theorem shortRows_eq_nil_iff : shortRows localTime c = [] ↔
    ¬ ∃ s ∈ cuts 0x7B 0x7D none (front c), isCred s = true := by
  rw [shortRows, rows, List.map_eq_nil_iff, List.filter_eq_nil_iff]
  push Not
  rfl

theorem harmless_members (c : Credential) : Harmless (members c) := by
  intro m hm
  have hname : m.1 ∈ allKeys.take 4 := List.mem_map_of_mem hm
  obtain ⟨-, hbraces, hends⟩ := allKeys_spec.2 m.1 (List.mem_of_mem_take hname)
  refine ⟨hbraces, fun h => ?_⟩
  rw [← hends (ascii "cred_id") (by simp [allKeys]) h] at hname
  exact absurd hname (by decide)

theorem isSome_opened_front : (opened 0x7B 0x7D none (front c)).isSome = true ↔
    Reopens (names c).flatten := by
  rw [isSome_opened (by decide), front, isOpen_cons, if_pos rfl, ← isOpen_braces,
    braces_pieces fun m hm => (harmless_members c m hm).1, isOpen_braces, isOpen_iff]
  rfl

theorem keepsMark_iff : (¬ ∃ s ∈ cuts 0x7B 0x7D none (front c), isCred s = true) ↔
    ∀ pre v post, names c = pre ++ v :: post → EndsIn (ascii "cred_id") v →
      Reopens (pre.flatten ++ v) → 0x7D ∉ post.flatten := by
  rw [front, exists_isCred_iff (harmless_members c)]
  constructor
  · intro h pre v post hnames hends hreopens hclosed
    have hmap : (members c).map Prod.snd = pre ++ v :: post := hnames
    obtain ⟨m₁, rest, hsplit, rfl, hrest⟩ := List.map_eq_append_iff.mp hmap
    obtain ⟨m, m₂, rfl, rfl, rfl⟩ := List.map_eq_cons_iff.mp hrest
    exact h ⟨m₁, m, m₂, hsplit, hends, hreopens, hclosed⟩
  · rintro h ⟨m₁, m, m₂, hsplit, hends, hreopens, hclosed⟩
    refine h (m₁.map Prod.snd) m.2 (m₂.map Prod.snd) ?_ hends hreopens hclosed
    change (members c).map Prod.snd = _
    rw [hsplit, List.map_append, List.map_cons]

/-- A credential whose names do not break the reply has one row, with what is to be shown. -/
theorem rowsOf_of_unambiguous (hc : Unambiguous c) :
    (rowsOf localTime c).map shown = [expected c] := by
  have hshort : shortRows localTime c = [] :=
    shortRows_eq_nil_iff.mpr (keepsMark_iff.mpr hc.keepsMark)
  obtain ⟨f, hf⟩ := Option.isSome_iff_exists.mp (isSome_opened_front.mpr hc.reopens)
  rw [rowsOf, hshort, lastRow, hf, List.nil_append, List.map_singleton, shown_row localTime hf]

theorem unambiguous_of_rows (hshort : shortRows localTime c = [])
    (hlast : (lastRow localTime c).length = 1) : Unambiguous c where
  reopens := by
    rw [← isSome_opened_front]
    rw [lastRow] at hlast
    cases hf : opened 0x7B 0x7D none (front c) with
    | none =>
      rw [hf] at hlast
      cases hlast
    | some f => rfl
  keepsMark := keepsMark_iff.mp (shortRows_eq_nil_iff.mp hshort)

/-- As many as possible, if there are as many altogether. -/
theorem length_eq_one_of_flatMap {α β : Type} {f : α → List β} {l : List α}
    (hle : ∀ a ∈ l, (f a).length ≤ 1) (h : (l.flatMap f).length = l.length) :
    ∀ a ∈ l, (f a).length = 1 := by
  have hsum : ∀ l : List α, (∀ a ∈ l, (f a).length ≤ 1) → (l.flatMap f).length ≤ l.length := by
    intro l hle
    induction l with
    | nil => exact le_rfl
    | cons a l ih =>
      obtain ⟨ha, hl⟩ := List.forall_mem_cons.mp hle
      have hih := ih hl
      rw [List.flatMap_cons, List.length_append, List.length_cons]
      omega
  induction l with
  | nil => exact fun a ha => absurd ha List.not_mem_nil
  | cons a l ih =>
    obtain ⟨ha, hl⟩ := List.forall_mem_cons.mp hle
    have htail := hsum l hl
    rw [List.flatMap_cons, List.length_append, List.length_cons] at h
    exact List.forall_mem_cons.mpr ⟨by omega, ih hl (by omega)⟩

/-- **Every credential is shown** exactly when no credential has names that break the reply. -/
theorem showsAll_iff (localTime : Bytes → Bytes) (creds : List Credential) :
    ShowsAll localTime creds ↔ ∀ c ∈ creds, Unambiguous c := by
  rw [ShowsAll, printList_listJson]
  constructor
  · rintro ⟨rows, htable, hshown⟩ c hc
    obtain ⟨rfl, hlen⟩ := Printed.table.inj htable
    -- no row without a count is among those that are to be shown
    have hshort : ∀ c ∈ creds, shortRows localTime c = [] := by
      intro c hc
      rw [List.eq_nil_iff_forall_not_mem]
      intro r hr
      have hmem : shown r ∈ creds.map expected := by
        rw [← hshown]
        refine List.mem_map_of_mem (List.mem_flatMap.mpr ⟨c, hc, ?_⟩)
        exact List.mem_append_left _ hr
      obtain ⟨c', -, hc'⟩ := List.mem_map.mp hmem
      have hcount : decimal c'.signCount.toNat = r.count := congrArg (fun t => t.2.1) hc'
      rw [count_of_mem_shortRows hr] at hcount
      exact decimal_ne_nil _ hcount
    have hrows : ∀ c ∈ creds, rowsOf localTime c = lastRow localTime c := fun c hc => by
      rw [rowsOf, hshort c hc, List.nil_append]
    have hone := length_eq_one_of_flatMap (f := rowsOf localTime)
      (fun c hc => by rw [hrows c hc]; exact length_lastRow_le) hlen c hc
    rw [hrows c hc] at hone
    exact unambiguous_of_rows (hshort c hc) hone
  · intro h
    have hmap : (creds.flatMap (rowsOf localTime)).map shown = creds.map expected := by
      rw [List.map_flatMap, List.flatMap_congr fun c hc => rowsOf_of_unambiguous (h c hc),
        List.map_eq_flatMap]
    refine ⟨_, ?_, hmap⟩
    have hlen := congrArg List.length hmap
    rw [List.length_map, List.length_map] at hlen
    rw [hlen]

/-- A user whose name is a closing brace is not shown. -/
theorem not_showsAll_brace : ¬ ShowsAll id [{
    rpId := ascii "a.example"
    rpIdHash := Block.replicate 32 0
    userName := ascii "\x7d"
    credId := Block.replicate 32 1
    pub := ⟨Block.replicate 32 0, Block.replicate 32 0⟩ }] := by
  rintro ⟨rows, htable, -⟩
  rw [printList_listJson] at htable
  exact absurd (Printed.table.inj htable).2 (by decide +kernel)

end Rows

end Listing

end Swpasskey
