import TransactionalHeap.Proofs.SortedMap.Lookup
import TransactionalHeap.Proofs.Step
import TransactionalHeap.Transaction.Entry

/-!
# Branches that meet the entries in another order

A transaction meets its entries one by one when it saves them for a branch and when it brings them
back. `Frame.capture` and `Frame.restore` do so in ascending handle order. Any other order would do as
well: the same is saved and brought back, or nothing is (`Frame.captureFrom_eq`,
`Frame.restoreFrom_eq`). Only of several faults another one may be met first.
-/
namespace TransactionalHeap

namespace SortedMap

variable {κ α β ε : Type} [Ranked κ] {f : κ → α → Except ε β} {m : SortedMap κ α}
  {n : SortedMap κ β} {bindings : List (κ × α)}

/-- Bind what `f` gives for the listed bindings as they come, ending at the first failure. -/
def bindAll (f : κ → α → Except ε β) (base : SortedMap κ β) :
    List (κ × α) → Except ε (SortedMap κ β)
  | [] => .ok base
  | (key, value) :: later => do bindAll f (base.insert key (← f key value)) later

/-- If the function gives for all bindings what is in `n`, then the keys end up bound as there. -/
theorem bindAll_of_ok (base : SortedMap κ β) (agrees : ∀ key value, (key, value) ∈ bindings →
      ∃ b, f key value = .ok b ∧ n.find? key = some b) :
    ∃ after, bindAll f base bindings = .ok after ∧
      (∀ key, key ∈ bindings.map Prod.fst → after.find? key = n.find? key) ∧
      ∀ key, key ∉ bindings.map Prod.fst → after.find? key = base.find? key := by
  induction bindings generalizing base with
  | nil => exact ⟨base, rfl, nofun, fun _ _ => rfl⟩
  | cons first later ih =>
    obtain ⟨k, a⟩ := first
    obtain ⟨b, hb, hfound⟩ := agrees k a List.mem_cons_self
    obtain ⟨after, hafter, hbound, hkept⟩ := ih (base.insert k b)
      fun key value hmem => agrees key value (List.mem_cons_of_mem _ hmem)
    have hrun : bindAll f base ((k, a) :: later) = .ok after := by
      rw [bindAll, hb]
      exact hafter
    refine ⟨after, hrun, fun key hmem => ?_, fun key hother => ?_⟩
    · by_cases hlater : key ∈ later.map Prod.fst
      · exact hbound key hlater
      · obtain rfl : key = k := (List.mem_cons.mp hmem).resolve_right hlater
        rw [hkept key hlater, find?_insert_self, hfound]
    · obtain ⟨hne, hlater⟩ := not_or.mp (mt List.mem_cons.mpr hother)
      rw [hkept key hlater, find?_insert_of_ne _ _ hne]

theorem ok_of_bindAll {base after : SortedMap κ β} (h : bindAll f base bindings = .ok after) {key : κ}
    {value : α} (hmem : (key, value) ∈ bindings) : ∃ b, f key value = .ok b := by
  induction bindings generalizing base with
  | nil => cases hmem
  | cons first later ih =>
    obtain ⟨b, hb, hlater⟩ := Except.exists_of_bind_eq_ok h
    rcases List.mem_cons.mp hmem with rfl | hrest
    · exact ⟨b, hb⟩
    · exact ih hlater hrest

/-- Going through the bindings of a map in whatever order succeeds, with the same result, if a traversal
of the map does. If that fails, then so does this, by the fault that it meets first. -/
theorem bindAll_cases (base : SortedMap κ β) (perm : bindings.Perm m.entries) :
    (∃ n, m.traverse f = .ok n ∧ bindAll f base bindings = .ok (base.union n)) ∨
    ∃ fault fault', m.traverse f = .error fault ∧ bindAll f base bindings = .error fault' := by
  have hmem : ∀ key value, (key, value) ∈ bindings ↔ m.find? key = some value := fun key value =>
    perm.mem_iff.trans mem_entries_iff
  cases htraverse : m.traverse f with
  | error fault =>
    obtain ⟨key, value, hfound, hfault⟩ := error_of_traverse htraverse
    cases hbind : bindAll f base bindings with
    | error fault' => exact .inr ⟨fault, fault', rfl, rfl⟩
    | ok after =>
      obtain ⟨b, hb⟩ := ok_of_bindAll hbind ((hmem key value).mpr hfound)
      rw [hfault] at hb
      cases hb
  | ok n =>
    obtain ⟨after, hafter, hbound, hkept⟩ := bindAll_of_ok (n := n) base
      fun key value hin => find?_traverse htraverse ((hmem key value).mp hin)
    suffices hunion : after = base.union n from .inl ⟨n, rfl, by rw [hafter, hunion]⟩
    apply ext_find?
    intro key
    rw [find?_union]
    by_cases hkey : key ∈ bindings.map Prod.fst
    · obtain ⟨⟨k, value⟩, hin, rfl⟩ := List.mem_map.mp hkey
      obtain ⟨b, -, hfound⟩ := find?_traverse htraverse ((hmem k value).mp hin)
      rw [hbound k hkey, hfound, Option.some_or]
    · have hnone : n.find? key = none := by
        refine Option.eq_none_iff_forall_ne_some.mpr fun b hb => ?_
        obtain ⟨value, hfound, -⟩ := find?_of_traverse htraverse hb
        exact hkey (List.mem_map.mpr ⟨(key, value), (hmem key value).mpr hfound, rfl⟩)
      rw [hkept key hkey, hnone, Option.none_or]

end SortedMap

variable [Transactables]

namespace Frame

/-- Save the listed entries as they come. -/
def captureFrom (listed : List (Handle × Entry)) : Except Error Frame := do
  return ⟨← SortedMap.bindAll (fun _ e => e.save) ∅ listed⟩

/-- Keep an entry that was made since the capture if it was loaded. -/
def keepRead (f : Frame) (kept : Entries) (listed : Handle × Entry) : Entries :=
  if f.saved.contains listed.1 then kept
  else match listed.2.origin with
    | none => kept
    | some r => kept.insert listed.1 (.deferred r)

/-- Bring the entries back to the capture, going through those that are there and then through the
saved ones as listed. -/
def restoreFrom (f : Frame) (listed : List (Handle × Entry))
    (saved : List (Handle × SavedEntry)) : Step Entries Unit := do
  set (∅ : Entries)
  let entries ← Step.ofExcept (SortedMap.bindAll SavedEntry.restore (listed.foldl f.keepRead ∅) saved)
  set entries

variable {entries : Entries} {listed : List (Handle × Entry)}

/-- However the entries are listed, capturing them saves the same, or it fails. -/
theorem captureFrom_eq (perm : listed.Perm entries.entries) :
    (captureFrom listed).toOption = (capture entries).toOption := by
  rw [captureFrom, capture]
  rcases SortedMap.bindAll_cases (f := fun (_ : Handle) (e : Entry) => e.save) ∅ perm with
    ⟨saved, hall, hlisted⟩ | ⟨fault, fault', hall, hlisted⟩
  · rw [hall, hlisted, SortedMap.empty_union]
  · rw [hall, hlisted]
    rfl

/-- However the entries are listed, the same reads are kept. -/
theorem foldl_keepRead (f : Frame) (perm : listed.Perm entries.entries) :
    listed.foldl f.keepRead ∅ = f.laterReads entries := by
  let later : Handle → Entry → Option Entry := fun h e =>
    if f.saved.contains h then none else e.origin.map .deferred
  have hlisted : listed.foldl f.keepRead ∅ = (listed.filterMap fun b =>
      (later b.1 b.2).map (b.1, ·)).foldl (fun kept b => kept.insert b.1 b.2) ∅ := by
    rw [List.foldl_filterMap]
    congr
    funext kept b
    simp only [keepRead, later]
    cases f.saved.contains b.1 <;> cases b.2.origin <;> rfl
  have hperm : (listed.filterMap fun b => (later b.1 b.2).map (b.1, ·)).Perm
      (f.laterReads entries).entries := perm.filterMap _
  rw [hlisted, SortedMap.foldl_insert_of_perm hperm, SortedMap.empty_union]

/-- However the entries and the saved ones are listed, a rollback brings the same entries back, or it
fails and leaves none. -/
theorem restoreFrom_eq (f : Frame) {saved : List (Handle × SavedEntry)}
    (perm : listed.Perm entries.entries) (savedPerm : saved.Perm f.saved.entries) :
    ((f.restoreFrom listed saved).result entries).1.toOption = (f.restore.result entries).1.toOption ∧
      (f.restoreFrom listed saved).after entries = f.restore.after entries := by
  have hkept := foldl_keepRead f perm
  rcases SortedMap.bindAll_cases (f := SavedEntry.restore) (f.laterReads entries) savedPerm with
    ⟨rebuilt, hall, hlisted⟩ | ⟨fault, fault', hall, hlisted⟩
  · have hrestore : f.restore entries = .ok () ((f.laterReads entries).union rebuilt) := by
      rw [restore, hall]
    have hrun : f.restoreFrom listed saved entries =
        .ok () ((f.laterReads entries).union rebuilt) := by
      apply (bind_of_ok rfl).trans
      rw [hkept, hlisted]
      rfl
    rw [Step.result_of_ok hrun, Step.result_of_ok hrestore, Step.after_of_ok hrun,
      Step.after_of_ok hrestore]
    exact ⟨rfl, rfl⟩
  · have hrestore : f.restore entries = .error fault ∅ := by
      rw [restore, hall]
    have hrun : f.restoreFrom listed saved entries = .error fault' ∅ := by
      apply (bind_of_ok rfl).trans
      rw [hkept, hlisted]
      rfl
    rw [Step.result_of_error hrun, Step.result_of_error hrestore, Step.after_of_error hrun,
      Step.after_of_error hrestore]
    exact ⟨rfl, rfl⟩

end Frame

end TransactionalHeap
