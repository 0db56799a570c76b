import TransactionalHeap.Tree

/-!
# What a tree holds

Read from left to right and without the cached heights, a tree is a list of bindings. Rotations do
not change that list. While its handles ascend, inserting a record places a binding in it as a
sorted map would, and a search answers as a lookup in it.

Nothing here depends on the heights being right, so it holds for every ordered tree, balanced or not.
-/
namespace TransactionalHeap

namespace SortedMap

variable {κ α : Type} [Ranked κ]

theorem place_append_of_lt {key k : κ} (value a : α) (xs ys : List (κ × α))
    (h : rank key < rank k) :
    place key value (xs ++ (k, a) :: ys) = place key value xs ++ (k, a) :: ys := by
  induction xs with
  | nil => simp [place, h]
  | cons head rest ih =>
    obtain ⟨k', b⟩ := head
    simp only [List.cons_append, place, ih]
    split
    · rfl
    · split <;> rfl

theorem place_append_of_eq {key k : κ} (value a : α) (xs ys : List (κ × α))
    (hxs : ∀ x ∈ xs, rank x.1 < rank k) (h : rank key = rank k) :
    place key value (xs ++ (k, a) :: ys) = xs ++ (key, value) :: ys := by
  induction xs with
  | nil => simp [place, h]
  | cons head rest ih =>
    have hhead := hxs head (by simp)
    have hrest := ih fun x hx => hxs x (by simp [hx])
    simp only [List.cons_append, place, hrest]
    rw [if_neg (by omega), if_neg (by omega)]

theorem place_append_of_gt {key k : κ} (value a : α) (xs ys : List (κ × α))
    (hxs : ∀ x ∈ xs, rank x.1 < rank k) (h : rank k < rank key) :
    place key value (xs ++ (k, a) :: ys) = xs ++ (k, a) :: place key value ys := by
  induction xs with
  | nil =>
    simp only [List.nil_append, place]
    rw [if_neg (by omega), if_neg (by omega)]
  | cons head rest ih =>
    have hhead := hxs head (by simp)
    have hrest := ih fun x hx => hxs x (by simp [hx])
    simp only [List.cons_append, place, hrest]
    rw [if_neg (by omega), if_neg (by omega)]

theorem lookup_eq_none {key : κ} {entries : List (κ × α)}
    (h : ∀ x ∈ entries, rank x.1 ≠ rank key) : lookup key entries = none := by
  induction entries with
  | nil => rfl
  | cons head rest ih =>
    have hhead := h head (by simp)
    simp only [lookup, if_neg hhead]
    exact ih fun x hx => h x (by simp [hx])

theorem lookup_append (key : κ) (xs ys : List (κ × α)) :
    lookup key (xs ++ ys) = (lookup key xs).or (lookup key ys) := by
  induction xs with
  | nil => rfl
  | cons head rest ih =>
    simp only [List.cons_append, lookup, ih]
    split <;> rfl

end SortedMap

variable [Transactables]

namespace Tree

/-- The handles with what is stored for them, from left to right. -/
def bindings : Tree → List (Handle × Record × Version)
  | empty => []
  | node cell left right =>
    bindings left ++ (cell.handle, cell.record, cell.version) :: bindings right

/-- The handles ascend from left to right. -/
def Ordered (t : Tree) : Prop := Ascending t.bindings

@[simp] theorem bindings_join (cell : Cell) (left right : Tree) :
    (join cell left right).bindings =
      left.bindings ++ (cell.handle, cell.record, cell.version) :: right.bindings := rfl

/-- Rotating keeps the order of everything below the pivot, whatever the cached heights say. -/
@[simp] theorem bindings_rebalance (pivot : Cell) (left right : Tree) :
    (rebalance pivot left right).bindings =
      left.bindings ++ (pivot.handle, pivot.record, pivot.version) :: right.bindings := by
  unfold rebalance
  split
  · cases right with
    | empty => simp
    | node r rl rr =>
      simp only
      split
      · simp [bindings]
      · cases rl <;> simp [bindings]
  · split
    · cases left with
      | empty => simp
      | node l ll lr =>
        simp only
        split
        · simp [bindings]
        · cases lr <;> simp [bindings]
    · simp

theorem ordered_empty : empty.Ordered := List.Pairwise.nil

theorem Ordered.left {cell : Cell} {left right : Tree} (h : (node cell left right).Ordered) :
    left.Ordered :=
  (List.pairwise_append.mp h).1

theorem Ordered.right {cell : Cell} {left right : Tree} (h : (node cell left right).Ordered) :
    right.Ordered :=
  (List.pairwise_cons.mp (List.pairwise_append.mp h).2.1).2

/-- Everything in the left child stands before the cell. -/
theorem Ordered.left_lt {cell : Cell} {left right : Tree} (h : (node cell left right).Ordered) :
    ∀ x ∈ left.bindings, rank x.1 < rank cell.handle :=
  fun x hx => (List.pairwise_append.mp h).2.2 x hx _ List.mem_cons_self

/-- Everything in the right child stands after the cell. -/
theorem Ordered.lt_right {cell : Cell} {left right : Tree} (h : (node cell left right).Ordered) :
    ∀ x ∈ right.bindings, rank cell.handle < rank x.1 :=
  fun x hx => (List.pairwise_cons.mp (List.pairwise_append.mp h).2.1).1 x hx

/-- Inserting into an ordered tree places the record among its bindings. -/
theorem bindings_insert (record : Record) (version : Version) {t : Tree} (h : t.Ordered) :
    (insert record version t).1.bindings =
      SortedMap.place record.handle (record, version) t.bindings := by
  induction t with
  | empty => rfl
  | node cell left right ihl ihr =>
    have hleft := h.left_lt
    unfold insert
    split
    · next heq =>
      have hrank : rank record.handle = rank cell.handle := by rw [heq]
      rw [bindings_join, bindings, SortedMap.place_append_of_eq _ _ _ _ hleft hrank, heq]
    · next hne =>
      have hrank : rank record.handle ≠ rank cell.handle := fun he =>
        hne (Ranked.rank_injective he)
      split
      · next hlt =>
        have hrank : rank record.handle < rank cell.handle := hlt
        rw [bindings_rebalance, bindings, SortedMap.place_append_of_lt _ _ _ _ hrank, ihl h.left]
      · next hge =>
        have hgt : rank cell.handle < rank record.handle := by
          simp only [Handle.lt_def, Handle.rank_eq] at hge hrank ⊢
          omega
        rw [bindings_rebalance, bindings, SortedMap.place_append_of_gt _ _ _ _ hleft hgt,
          ihr h.right]

theorem Ordered.insert (record : Record) (version : Version) {t : Tree} (h : t.Ordered) :
    (t.insert record version).1.Ordered := by
  rw [Ordered, bindings_insert record version h]
  exact SortedMap.ascending_place _ _ h

/-- A search finds what the bindings hold for the handle. -/
theorem find_eq_lookup (handle : Handle) {t : Tree} (h : t.Ordered) :
    (find handle t).map (fun cell => (cell.record, cell.version)) =
      SortedMap.lookup handle t.bindings := by
  induction t with
  | empty => rfl
  | node cell left right ihl ihr =>
    have hleft := h.left_lt
    have hright := h.lt_right
    rw [bindings, SortedMap.lookup_append, SortedMap.lookup]
    unfold find
    split
    · next heq =>
      subst heq
      rw [SortedMap.lookup_eq_none fun x hx => Nat.ne_of_lt (hleft x hx)]
      simp
    · next hne =>
      have hrank : rank cell.handle ≠ rank handle := fun he =>
        hne (Ranked.rank_injective he).symm
      rw [if_neg hrank]
      split
      · next hlt =>
        have hafter : rank handle < rank cell.handle := hlt
        have hnone : SortedMap.lookup handle right.bindings = none :=
          SortedMap.lookup_eq_none fun x hx => by have := hright x hx; omega
        rw [hnone]
        simp [ihl h.left]
      · next hge =>
        have hbefore : rank cell.handle < rank handle := by
          simp only [Handle.lt_def, Handle.rank_eq] at hge hrank ⊢
          omega
        have hnone : SortedMap.lookup handle left.bindings = none :=
          SortedMap.lookup_eq_none fun x hx => by have := hleft x hx; omega
        rw [hnone]
        simp [ihr h.right]

/-- What a search finds is one of the cells, and the handle's own. -/
theorem mem_cells_of_find {handle : Handle} {cell : Cell} {t : Tree}
    (h : find handle t = some cell) : cell ∈ t.cells ∧ cell.handle = handle := by
  induction t with
  | empty => cases h
  | node root left right ihl ihr =>
    unfold find at h
    split at h
    · next heq =>
      cases h
      exact ⟨by simp [cells], heq.symm⟩
    · split at h
      · obtain ⟨hmem, hhandle⟩ := ihl h
        exact ⟨List.mem_append_left _ hmem, hhandle⟩
      · obtain ⟨hmem, hhandle⟩ := ihr h
        exact ⟨List.mem_append_right _ (List.mem_cons_of_mem _ hmem), hhandle⟩

end Tree

namespace HeapTree

/-- What the tree holds for a handle: the record, and the version that its node shows. -/
def stored (t : HeapTree) (handle : Handle) : Option (Record × Version) :=
  (t.find? handle).map fun cell => (cell.record, cell.version)

theorem get?_eq_stored (t : HeapTree) (handle : Handle) :
    t.get? handle = (t.stored handle).map Prod.fst := by
  simp only [get?, stored, Option.map_map]
  rfl

theorem ordered_insert (record : Record) {t : HeapTree} (h : t.root.Ordered) :
    (t.insert record).root.Ordered :=
  h.insert record record.version

theorem ordered_insertAll (records : List Record) {t : HeapTree} (h : t.root.Ordered) :
    (t.insertAll records).root.Ordered := by
  induction records generalizing t with
  | nil => exact h
  | cons record rest ih => exact ih (ordered_insert record h)

theorem stored_insert (record : Record) (handle : Handle) {t : HeapTree} (h : t.root.Ordered) :
    (t.insert record).stored handle =
      if record.handle = handle then some (record, record.version) else t.stored handle := by
  have hfind := Tree.find_eq_lookup handle h
  have hfind' := Tree.find_eq_lookup handle (h.insert record record.version)
  rw [Tree.bindings_insert record record.version h, SortedMap.lookup_place] at hfind'
  simp only [stored, find?, hfind]
  apply hfind'.trans
  by_cases heq : record.handle = handle
  · simp [heq]
  · have hrank : rank record.handle ≠ rank handle := fun he => heq (Ranked.rank_injective he)
    rw [if_neg hrank, if_neg heq]

/-- Of several inserted records for one handle, the last one counts. -/
theorem stored_insertAll (records : List Record) (handle : Handle) {t : HeapTree}
    (h : t.root.Ordered) :
    (t.insertAll records).stored handle =
      ((records.filter (·.handle = handle)).getLast?.map fun r => (r, r.version)).or
        (t.stored handle) := by
  induction records generalizing t with
  | nil => rfl
  | cons record rest ih =>
    have hstep : t.insertAll (record :: rest) = (t.insert record).insertAll rest := rfl
    rw [hstep, ih (ordered_insert record h), stored_insert record handle h]
    by_cases heq : record.handle = handle
    · rw [if_pos heq, List.filter_cons_of_pos (by simpa using heq), List.getLast?_cons]
      cases (rest.filter (·.handle = handle)).getLast? <;> rfl
    · simp [heq]

end HeapTree

end TransactionalHeap
