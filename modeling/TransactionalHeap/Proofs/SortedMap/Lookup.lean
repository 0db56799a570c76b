import TransactionalHeap.Identity

/-!
# Lookups after a change

How a lookup comes out after an insertion, a modification or a traversal. Together with
`SortedMap.ext_find?` these settle every equation between maps.
-/
namespace TransactionalHeap

namespace SortedMap

variable {κ α β ε : Type} [Ranked κ]

@[simp] theorem find?_insert_self (m : SortedMap κ α) (key : κ) (value : α) :
    (m.insert key value).find? key = some value := by
  rw [find?_insert, if_pos rfl]

theorem find?_insert_of_ne (m : SortedMap κ α) {key other : κ} (value : α) (h : other ≠ key) :
    (m.insert key value).find? other = m.find? other := by
  rw [find?_insert, if_neg fun hrank => h (Ranked.rank_injective hrank).symm]

/-- The second of two insertions under one key counts. -/
@[simp] theorem insert_insert (m : SortedMap κ α) (key : κ) (first second : α) :
    (m.insert key first).insert key second = m.insert key second := by
  apply ext_find?
  intro other
  rw [find?_insert, find?_insert, find?_insert]
  split <;> rfl

/-- The order of two insertions does not matter unless it is the same key. -/
theorem insert_comm (m : SortedMap κ α) {key other : κ} (hne : key ≠ other) (value value' : α) :
    (m.insert key value).insert other value' = (m.insert other value').insert key value := by
  apply ext_find?
  intro k
  by_cases hkey : k = key
  · rw [hkey, find?_insert_of_ne _ _ hne, find?_insert_self, find?_insert_self]
  · rw [find?_insert_of_ne _ _ hkey]
    by_cases hother : k = other
    · rw [hother, find?_insert_self, find?_insert_self]
    · rw [find?_insert_of_ne _ _ hother, find?_insert_of_ne _ _ hother, find?_insert_of_ne _ _ hkey]

/-- Inserting what is bound already changes nothing. -/
theorem insert_of_find? {m : SortedMap κ α} {key : κ} {value : α} (h : m.find? key = some value) :
    m.insert key value = m := by
  apply ext_find?
  intro other
  rw [find?_insert]
  split
  · next hrank => rw [← Ranked.rank_injective hrank, h]
  · rfl

theorem find?_modify (m : SortedMap κ α) (key other : κ) (f : α → α) :
    (m.modify key f).find? other =
      if rank key = rank other then (m.find? other).map f else m.find? other := by
  unfold modify
  split
  · next value hfound =>
    rw [find?_insert]
    split
    · next hrank => rw [← Ranked.rank_injective hrank, hfound, Option.map_some]
    · rfl
  · next hnone =>
    split
    · next hrank => rw [← Ranked.rank_injective hrank, hnone, Option.map_none]
    · rfl

theorem find?_modify_self (m : SortedMap κ α) (key : κ) (f : α → α) :
    (m.modify key f).find? key = (m.find? key).map f := by
  rw [find?_modify, if_pos rfl]

theorem find?_modify_of_ne (m : SortedMap κ α) {key other : κ} (f : α → α) (h : other ≠ key) :
    (m.modify key f).find? other = m.find? other := by
  rw [find?_modify, if_neg fun hrank => h (Ranked.rank_injective hrank).symm]

theorem modify_insert (m : SortedMap κ α) (key : κ) (value : α) (f : α → α) :
    (m.insert key value).modify key f = m.insert key (f value) := by
  simp only [modify, find?_insert_self, insert_insert]

theorem find?_erase_self (m : SortedMap κ α) (key : κ) : (m.erase key).find? key = none := by
  rw [find?_erase, if_pos rfl]

theorem find?_erase_of_ne (m : SortedMap κ α) {key other : κ} (h : other ≠ key) :
    (m.erase key).find? other = m.find? other := by
  rw [find?_erase, if_neg fun hrank => h (Ranked.rank_injective hrank).symm]

/-- Erasing what is not bound changes nothing. -/
theorem erase_of_find? {m : SortedMap κ α} {key : κ} (h : m.find? key = none) :
    m.erase key = m := by
  apply ext_find?
  intro other
  rw [find?_erase]
  split
  · next hrank => rw [← Ranked.rank_injective hrank, h]
  · rfl

/-- What is found after an insertion is what was inserted, or it was there under another key. -/
theorem find?_of_insert {m : SortedMap κ α} {key other : κ} {value found : α}
    (h : (m.insert key value).find? other = some found) :
    other = key ∧ found = value ∨ other ≠ key ∧ m.find? other = some found := by
  by_cases hsame : other = key
  · subst hsame
    rw [find?_insert_self] at h
    exact .inl ⟨rfl, (Option.some.inj h).symm⟩
  · rw [find?_insert_of_ne m value hsame] at h
    exact .inr ⟨hsame, h⟩

/-- What is found after an erasure was there under another key. -/
theorem find?_of_erase {m : SortedMap κ α} {key other : κ} {found : α}
    (h : (m.erase key).find? other = some found) : other ≠ key ∧ m.find? other = some found := by
  by_cases hsame : other = key
  · subst hsame
    rw [find?_erase_self] at h
    cases h
  · rw [find?_erase_of_ne m hsame] at h
    exact ⟨hsame, h⟩

theorem eq_empty_of_isEmpty {m : SortedMap κ α} (h : m.isEmpty = true) : m = ∅ := by
  apply ext_find?
  intro key
  rw [find?, List.isEmpty_iff.mp h]
  rfl

theorem contains_iff {m : SortedMap κ α} {key : κ} :
    m.contains key = true ↔ ∃ value, m.find? key = some value := by
  rw [contains, Option.isSome_iff_exists]

theorem contains_eq_false_iff {m : SortedMap κ α} {key : κ} :
    m.contains key = false ↔ m.find? key = none := by
  rw [contains, Option.isSome_eq_false_iff, Option.isNone_iff_eq_none]

theorem mem_keys_iff {m : SortedMap κ α} {key : κ} :
    key ∈ m.keys ↔ ∃ value, m.find? key = some value := by
  simp only [keys, List.mem_map, Prod.exists, exists_and_right, exists_eq_right,
    mem_entries_iff]

theorem nodup_keys (m : SortedMap κ α) : m.keys.Nodup := by
  refine List.Pairwise.map Prod.fst (fun a b hlt hsame => ?_) m.ascending
  exact Nat.ne_of_lt hlt (congrArg rank hsame)

theorem mem_values_iff {m : SortedMap κ α} {value : α} :
    value ∈ m.values ↔ ∃ key, m.find? key = some value := by
  simp only [values, List.mem_map, Prod.exists, exists_eq_right, mem_entries_iff]

theorem empty_union (n : SortedMap κ α) : union ∅ n = n := by
  apply ext_find?
  intro key
  rw [find?_union, find?_empty, Option.or_none]

/-- Inserting the bindings of a map in whatever order gives the union. -/
theorem foldl_insert_of_perm {m : SortedMap κ α} {bindings : List (κ × α)}
    (perm : bindings.Perm m.entries) (base : SortedMap κ α) :
    bindings.foldl (fun bound b => bound.insert b.1 b.2) base = base.union m := by
  refine perm.foldl_eq' (fun first hfirst second hsecond bound => ?_) base
  by_cases hsame : first.1 = second.1
  · have hfound := mem_entries_iff.mp (perm.mem_iff.mp hfirst)
    have hfound' := mem_entries_iff.mp (perm.mem_iff.mp hsecond)
    rw [← hsame, hfound] at hfound'
    rw [Prod.ext hsame (Option.some.inj hfound')]
  · exact insert_comm bound hsame first.2 second.2

/-! ## Bindings but for one key -/

/-- The bindings after an insertion are the new one and those of the other keys. -/
theorem entries_insert_perm (m : SortedMap κ α) (key : κ) (value : α) :
    (m.insert key value).entries.Perm ((key, value) :: (m.erase key).entries) := by
  obtain ⟨entries, ascending⟩ := m
  let others : κ × α → Bool := fun e => rank e.1 != rank key
  change (place key value entries).Perm ((key, value) :: entries.filter others)
  induction entries with
  | nil => exact .refl _
  | cons head rest ih =>
    obtain ⟨k, a⟩ := head
    obtain ⟨hhead, hrest⟩ := List.pairwise_cons.mp ascending
    -- from the place of the key on, nothing is left out
    have hkept : rank key ≤ rank k → rest.filter others = rest := by
      intro hle
      refine List.filter_eq_self.mpr fun e he => bne_iff_ne.mpr ?_
      exact Nat.ne_of_gt (Nat.lt_of_le_of_lt hle (hhead e he))
    unfold place
    split
    · next hlt =>
      have hother : others (k, a) = true := bne_iff_ne.mpr (Nat.ne_of_gt hlt)
      rw [List.filter_cons_of_pos hother, hkept (Nat.le_of_lt hlt)]
    · split
      · next heq =>
        have hsame : ¬ others (k, a) = true := by simp [others, heq]
        rw [List.filter_cons_of_neg hsame, hkept (Nat.le_of_eq heq)]
      · next hne =>
        have hother : others (k, a) = true := bne_iff_ne.mpr (Ne.symm hne)
        rw [List.filter_cons_of_pos hother]
        exact ((ih hrest).cons _).trans (.swap _ _ _)

theorem entries_perm_of_find? {m : SortedMap κ α} {key : κ} {value : α}
    (h : m.find? key = some value) : m.entries.Perm ((key, value) :: (m.erase key).entries) := by
  have hinsert := m.entries_insert_perm key value
  rwa [insert_of_find? h] at hinsert

/-- The values that satisfy `p` are, beside that of one key, those of the other keys. -/
theorem countP_values_insert (m : SortedMap κ α) (key : κ) (value : α) (p : α → Bool) :
    (m.insert key value).values.countP p =
      (m.erase key).values.countP p + if p value then 1 else 0 := by
  have hperm := (m.entries_insert_perm key value).map Prod.snd
  rw [values, hperm.countP_eq, List.map_cons, List.countP_cons, values]

/-! ## Traversals -/

/-- A traversal succeeds when the function does on every binding, and binds what it gives. -/
theorem traverse_eq_ok (m : SortedMap κ α) {f : κ → α → Except ε β}
    (h : ∀ key value, m.find? key = some value → ∃ b, f key value = .ok b) :
    ∃ n, m.traverse f = .ok n ∧
      ∀ key, n.find? key = (m.find? key).bind fun value => (f key value).toOption := by
  obtain ⟨entries, ascending⟩ := m
  have hentries : ∃ out, traverseEntries f entries = .ok out ∧
      ∀ key, lookup key out.1 = (lookup key entries).bind fun value => (f key value).toOption := by
    induction entries with
    | nil => exact ⟨⟨[], rfl⟩, rfl, fun _ => rfl⟩
    | cons head rest ih =>
      obtain ⟨k, a⟩ := head
      have hhead : (⟨(k, a) :: rest, ascending⟩ : SortedMap κ α).find? k = some a := if_pos rfl
      obtain ⟨b, hb⟩ := h k a hhead
      obtain ⟨out, hout, hlookup⟩ := ih (List.pairwise_cons.mp ascending).2 fun key value hfound =>
        h key value (mem_entries_iff.mp (List.mem_cons_of_mem _ (mem_entries_iff.mpr hfound)))
      refine ⟨⟨(k, b) :: out.1, by simp [out.2]⟩, by simp only [traverseEntries, hb, hout], ?_⟩
      intro key
      simp only [lookup, hlookup]
      split
      · next hrank =>
        rw [← Ranked.rank_injective hrank, Option.bind_some, hb]
        rfl
      · rfl
  obtain ⟨out, hout, hlookup⟩ := hentries
  exact ⟨⟨out.1, ascending_of_keys out.2 ascending⟩, by rw [traverse, hout]; rfl, hlookup⟩

/-- What a traversal binds comes from a binding of the original map. -/
theorem find?_of_traverse {m : SortedMap κ α} {n : SortedMap κ β} {f : κ → α → Except ε β}
    (h : m.traverse f = .ok n) {key : κ} {b : β} (hfound : n.find? key = some b) :
    ∃ value, m.find? key = some value ∧ f key value = .ok b := by
  obtain ⟨entries, ascending⟩ := m
  rw [traverse] at h
  cases hout : traverseEntries f entries with
  | error e =>
    rw [hout] at h
    cases h
  | ok out =>
    rw [hout] at h
    cases h
    change lookup key out.1 = some b at hfound
    change ∃ value, lookup key entries = some value ∧ f key value = .ok b
    clear ascending
    induction entries with
    | nil =>
      cases hout
      cases hfound
    | cons head rest ih =>
      obtain ⟨k, a⟩ := head
      simp only [traverseEntries] at hout
      split at hout
      · next b' out' hb' hout' =>
        cases hout
        simp only [lookup] at hfound ⊢
        split at hfound
        · next hrank =>
          cases hfound
          obtain rfl := Ranked.rank_injective hrank
          exact ⟨a, by rw [if_pos rfl], hb'⟩
        · next hrank =>
          obtain ⟨value, hvalue, hf⟩ := ih out' hout' hfound
          exact ⟨value, by rw [if_neg hrank, hvalue], hf⟩
      · cases hout
      · cases hout

omit [Ranked κ] in
/-- The function succeeds wherever a traversal that succeeds has been. -/
theorem ok_of_traverseEntries {f : κ → α → Except ε β} {entries : List (κ × α)} {key : κ} {value : α}
    (mem : (key, value) ∈ entries) : ∀ {out}, traverseEntries f entries = .ok out →
      ∃ b, f key value = .ok b := by
  induction entries with
  | nil => cases mem
  | cons head rest ih =>
    obtain ⟨k, a⟩ := head
    intro out hout
    simp only [traverseEntries] at hout
    split at hout
    · next b out' hb hout' =>
      rcases List.mem_cons.mp mem with heq | hrest
      · cases heq
        exact ⟨b, hb⟩
      · exact ih hrest hout'
    · cases hout
    · cases hout

/-- What a traversal gives for a binding of the original map is bound. -/
theorem find?_traverse {m : SortedMap κ α} {n : SortedMap κ β} {f : κ → α → Except ε β}
    (h : m.traverse f = .ok n) {key : κ} {value : α} (hfound : m.find? key = some value) :
    ∃ b, f key value = .ok b ∧ n.find? key = some b := by
  have hall : ∀ k a, m.find? k = some a → ∃ b, f k a = .ok b := by
    intro k a hka
    rw [traverse] at h
    cases hout : traverseEntries f m.entries with
    | error e =>
      rw [hout] at h
      cases h
    | ok out => exact ok_of_traverseEntries (mem_of_lookup hka) hout
  obtain ⟨b, hb⟩ := hall key value hfound
  obtain ⟨n', hn', hlookup⟩ := m.traverse_eq_ok hall
  obtain rfl : n = n' := Except.ok.inj (h.symm.trans hn')
  refine ⟨b, hb, ?_⟩
  rw [hlookup, hfound, Option.bind_some, hb]
  rfl

/-- A traversal fails as the function does on one of the bindings. -/
theorem error_of_traverse {m : SortedMap κ α} {f : κ → α → Except ε β} {fault : ε}
    (h : m.traverse f = .error fault) : ∃ key value, m.find? key = some value ∧
      f key value = .error fault := by
  obtain ⟨entries, ascending⟩ := m
  rw [traverse] at h
  have hentries : traverseEntries f entries = .error fault := by
    cases hout : traverseEntries f entries with
    | error e =>
      rw [hout] at h
      cases h
      rfl
    | ok out =>
      rw [hout] at h
      cases h
  suffices hmem : ∃ key value, (key, value) ∈ entries ∧ f key value = .error fault by
    obtain ⟨key, value, hmem, hfault⟩ := hmem
    exact ⟨key, value, mem_entries_iff.mp hmem, hfault⟩
  clear h ascending
  induction entries with
  | nil => cases hentries
  | cons head rest ih =>
    obtain ⟨k, a⟩ := head
    simp only [traverseEntries] at hentries
    split at hentries
    · cases hentries
    · next hfault =>
      cases hentries
      exact ⟨k, a, List.mem_cons_self, hfault⟩
    · next hfault =>
      cases hentries
      obtain ⟨key, value, hmem, hvalue⟩ := ih hfault
      exact ⟨key, value, List.mem_cons_of_mem _ hmem, hvalue⟩

end SortedMap

/-- Sorting handles loses none and adds none. -/
theorem Handle.mem_sortDistinct {handles : List Handle} {h : Handle} :
    h ∈ Handle.sortDistinct handles ↔ h ∈ handles := by
  have hfold : ∀ (m : SortedMap Handle Unit),
      (∃ u, (handles.foldl (fun m h => m.insert h ()) m).find? h = some u) ↔
        h ∈ handles ∨ ∃ u, m.find? h = some u := by
    induction handles with
    | nil => simp
    | cons first later ih =>
      intro m
      rw [List.foldl_cons, ih, List.mem_cons]
      by_cases hsame : h = first
      · subst hsame
        simp
      · rw [SortedMap.find?_insert_of_ne _ _ hsame]
        simp [hsame]
  rw [sortDistinct, SortedMap.mem_keys_iff, hfold]
  simp

/-- The order of the handles does not matter to sorting them. -/
theorem Handle.sortDistinct_of_perm {handles handles' : List Handle} (perm : handles.Perm handles') :
    sortDistinct handles = sortDistinct handles' := by
  refine congrArg SortedMap.keys (perm.foldl_eq' (fun h _ h' _ m => ?_) ∅)
  by_cases hsame : h = h'
  · rw [hsame]
  · exact m.insert_comm hsame () ()

theorem Handle.ascending_sortDistinct (handles : List Handle) :
    (Handle.sortDistinct handles).Pairwise (· < ·) := by
  have hascending := (handles.foldl (fun m h => m.insert h ()) (∅ : SortedMap Handle Unit)).ascending
  rw [sortDistinct, SortedMap.keys, List.pairwise_map]
  exact hascending

theorem Handle.nodup_sortDistinct (handles : List Handle) : (Handle.sortDistinct handles).Nodup :=
  (Handle.ascending_sortDistinct handles).imp fun hlt hsame =>
    Nat.ne_of_lt hlt (congrArg rank hsame)

end TransactionalHeap
