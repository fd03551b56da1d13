import Swpasskey.Store.Mutators

/-!
# The rows as a table

What the row operations of the mutators do to the list of rows, up to order: `put` adds the
row and drops the one with its id, `erase` drops a row, `update_count_and_used` changes
nothing but a counter and a time.
-/

namespace Swpasskey.Store

variable {l : List Credential} {c e : Credential} {credId : Bytes}

/-- The ids of the rows. -/
def ids (l : List Credential) : List (Block 32) := l.map Credential.credId

/-- The row found by its id, in its place. -/
theorem find?_split (h : l.find? (fun c => c.credId.bytes == credId) = some c) :
    ∃ l₁ l₂, l = l₁ ++ c :: l₂ ∧ c.credId.bytes = credId ∧
      ∀ e ∈ l₁, e.credId.bytes ≠ credId := by
  obtain ⟨hc, l₁, l₂, hl, hfirst⟩ := List.find?_eq_some_iff_append.mp h
  exact ⟨l₁, l₂, hl, by simpa using hc, fun e he => by simpa using hfirst e he⟩

theorem find?_of_split {l₁ l₂ : List Credential} (hid : c.credId.bytes = credId)
    (hne : ∀ e ∈ l₁, e.credId.bytes ≠ credId) :
    (l₁ ++ c :: l₂).find? (fun c => c.credId.bytes == credId) = some c := by
  rw [List.find?_eq_some_iff_append]
  exact ⟨by simpa using hid, l₁, l₂, rfl, fun e he => by simpa using hne e he⟩

theorem mem_of_findById {s : Store} (h : s.findById credId = some c) :
    c ∈ s.creds ∧ c.credId.bytes = credId :=
  ⟨List.mem_of_find?_eq_some h, by simpa using List.find?_some h⟩

/-- A stored row is found by its id, when no other has it. -/
theorem findById_of_mem {s : Store} (hids : (ids s.creds).Nodup) (hc : c ∈ s.creds) :
    s.findById c.credId.bytes = some c := by
  rcases hf : s.findById c.credId.bytes with _ | e
  · have hno := List.find?_eq_none.mp hf c hc
    simp at hno
  · obtain ⟨he, hid⟩ := mem_of_findById hf
    rw [List.inj_on_of_nodup_map hids he hc (Block.ext hid)]

/-! ### erase -/

theorem eraseRows_split {l₁ l₂ : List Credential} (hid : c.credId.bytes = credId)
    (hne : ∀ e ∈ l₁, e.credId.bytes ≠ credId) :
    eraseRows credId (l₁ ++ c :: l₂) = l₁ ++ l₂ := by
  rw [eraseRows, List.eraseP_append_right _ (fun e he => by simpa using hne e he),
    List.eraseP_cons_of_pos (by simpa using hid)]

theorem eraseRows_perm (h : l.find? (fun c => c.credId.bytes == credId) = some c) :
    l.Perm (c :: eraseRows credId l) := by
  obtain ⟨l₁, l₂, rfl, hid, hne⟩ := find?_split h
  rw [eraseRows_split hid hne]
  exact List.perm_middle

theorem eraseRows_sublist : (eraseRows credId l).Sublist l := List.eraseP_sublist

/-! ### update_count_and_used -/

theorem replaceFirst_split {l₁ l₂ : List Credential} (hid : e.credId = c.credId)
    (hne : ∀ e ∈ l₁, e.credId ≠ c.credId) :
    replaceFirst c (l₁ ++ e :: l₂) = l₁ ++ c :: l₂ := by
  induction l₁ with
  | nil => exact if_pos hid
  | cons a l₁ ih =>
    rw [List.cons_append, replaceFirst, if_neg (hne a List.mem_cons_self),
      ih fun e he => hne e (List.mem_cons_of_mem a he), List.cons_append]

/-- The use of a row, in its place. -/
theorem replaceFirst_used_split (h : l.find? (fun c => c.credId.bytes == credId) = some c)
    (n : UInt32) (t : UInt64) :
    ∃ l₁ l₂, l = l₁ ++ c :: l₂ ∧ replaceFirst (c.used n t) l = l₁ ++ c.used n t :: l₂ := by
  obtain ⟨l₁, l₂, rfl, hid, hne⟩ := find?_split h
  refine ⟨l₁, l₂, rfl, replaceFirst_split rfl fun e he heq => ?_⟩
  exact hne e he ((congrArg Block.bytes heq).trans hid)

/-- The use of a row leaves what the rows say apart from counter and time as it was. -/
theorem filterMap_replaceFirst_used {β : Type} (f : Credential → Option β)
    (h : l.find? (fun c => c.credId.bytes == credId) = some c) {n : UInt32} {t : UInt64}
    (hf : f (c.used n t) = f c) : (replaceFirst (c.used n t) l).filterMap f = l.filterMap f := by
  obtain ⟨l₁, l₂, rfl, hreplace⟩ := replaceFirst_used_split h n t
  rw [hreplace, List.filterMap_append, List.filterMap_append, List.filterMap_cons,
    List.filterMap_cons, hf]

theorem map_replaceFirst_used {β : Type} (f : Credential → β)
    (h : l.find? (fun c => c.credId.bytes == credId) = some c) {n : UInt32} {t : UInt64}
    (hf : f (c.used n t) = f c) : (replaceFirst (c.used n t) l).map f = l.map f := by
  have hmap := filterMap_replaceFirst_used (fun c => some (f c)) h (congrArg some hf)
  simpa only [List.filterMap_eq_map'] using hmap

/-! ### put -/

/-- `put` adds the row; at most the row with its id goes. -/
theorem putRows_perm (hids : (ids l).Nodup) (c : Credential) :
    ∃ l', l'.Sublist l ∧ (putRows c l).Perm (c :: l') ∧ c.credId ∉ ids l' := by
  unfold putRows
  split
  · rename_i hany
    obtain ⟨e, he, hid⟩ := List.any_eq_true.mp hany
    have hid : e.credId = c.credId := of_decide_eq_true hid
    obtain ⟨l₁, l₂, rfl⟩ := List.append_of_mem he
    simp only [ids, List.map_append, List.map_cons] at hids
    -- the ids are distinct, so the row replaced is the only one with its id
    have hnot : e.credId ∉ ids (l₁ ++ l₂) := by
      have hperm : (e.credId :: (l₁.map Credential.credId ++ l₂.map Credential.credId)).Nodup :=
        List.perm_middle.nodup_iff.mp hids
      rw [ids, List.map_append]
      exact (List.nodup_cons.mp hperm).1
    refine ⟨l₁ ++ l₂, ?_, ?_, hid ▸ hnot⟩
    · exact List.Sublist.append (List.Sublist.refl _) (List.sublist_cons_self _ _)
    · rw [replaceFirst_split hid]
      · exact List.perm_middle
      · intro a ha heq
        refine hnot (List.mem_map.mpr ⟨a, List.mem_append_left _ ha, heq.trans hid.symm⟩)
  · rename_i hany
    refine ⟨l, List.Sublist.refl _, List.perm_append_comm, fun hmem => hany ?_⟩
    obtain ⟨e, he, hid⟩ := List.mem_map.mp hmem
    exact List.any_eq_true.mpr ⟨e, he, decide_eq_true hid⟩

theorem mem_replaceFirst (h : e ∈ replaceFirst c l) :
    e = c ∨ e ∈ l := by
  induction l with
  | nil => cases h
  | cons b l ih =>
    rw [replaceFirst] at h
    split_ifs at h
    · rcases List.mem_cons.mp h with rfl | h
      · exact .inl rfl
      · exact .inr (List.mem_cons_of_mem b h)
    · rcases List.mem_cons.mp h with rfl | h
      · exact .inr List.mem_cons_self
      · exact (ih h).imp_right (List.mem_cons_of_mem b)

theorem mem_putRows (h : e ∈ putRows c l) :
    e = c ∨ e ∈ l := by
  unfold putRows at h
  split_ifs at h
  · exact mem_replaceFirst h
  · rcases List.mem_append.mp h with h | h
    · exact .inr h
    · exact .inl (List.mem_singleton.mp h)

theorem mem_putRows_self (c : Credential) (l : List Credential) : c ∈ putRows c l := by
  unfold putRows
  split
  · rename_i hany
    induction l with
    | nil => cases hany
    | cons e l ih =>
      rw [replaceFirst]
      split
      · exact List.mem_cons_self
      · rename_i hne
        rw [List.any_cons, Bool.or_eq_true, decide_eq_true_eq] at hany
        exact List.mem_cons_of_mem _ (ih (hany.resolve_left hne))
  · exact List.mem_append_right _ List.mem_cons_self

theorem ids_putRows (hids : (ids l).Nodup) (c : Credential) : (ids (putRows c l)).Nodup := by
  obtain ⟨l', hsub, hperm, hnot⟩ := putRows_perm hids c
  refine (hperm.map _).nodup_iff.mpr (List.nodup_cons.mpr ⟨hnot, ?_⟩)
  exact (hsub.map _).nodup hids

end Swpasskey.Store
