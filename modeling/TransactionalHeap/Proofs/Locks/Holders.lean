import TransactionalHeap.Locks
import TransactionalHeap.Proofs.SortedMap.Lookup

/-!
# Who holds a lock

What an acquisition and the dropping of a guard do to the holder of every object
(`LockTable.acquire_meets`). An owner that holds nothing either gets all it asks for, or the table is as
it was; and dropping its guard undoes the acquisition (`LockTable.acquire_cases`,
`LockTable.drop_of_grants`).
-/
namespace TransactionalHeap

namespace LockTable

variable {base t : LockTable} {owner : TxnId} {held : List Handle}

/-- Tables in which everything has the same holder are equal. -/
theorem ext_holderOf {t t' : LockTable} (h : ∀ handle, t.holderOf handle = t'.holderOf handle) :
    t = t' := by
  obtain ⟨owners⟩ := t
  obtain ⟨owners'⟩ := t'
  exact congrArg LockTable.mk (SortedMap.ext_find? h)

theorem holderOf_release (t : LockTable) (owner : TxnId) (handle other : Handle) :
    (t.release owner handle).holderOf other =
      if other = handle ∧ t.holderOf handle = some owner then none else t.holderOf other := by
  by_cases hheld : t.owners.find? handle = some owner
  · have hrelease : t.release owner handle = ⟨t.owners.erase handle⟩ := if_pos hheld
    rw [hrelease]
    by_cases hsame : other = handle
    · subst hsame
      rw [if_pos ⟨rfl, hheld⟩]
      exact SortedMap.find?_erase_self _ _
    · rw [if_neg fun h => hsame h.1]
      exact SortedMap.find?_erase_of_ne _ hsame
  · have hrelease : t.release owner handle = t := if_neg hheld
    rw [hrelease, if_neg fun h => hheld h.2]

/-- Dropping a guard frees what its owner holds of it, and nothing else. -/
theorem holderOf_drop (t : LockTable) (guard : LockGuard) (handle : Handle) :
    (t.drop guard).holderOf handle =
      if handle ∈ guard.held ∧ t.holderOf handle = some guard.owner then none
      else t.holderOf handle := by
  obtain ⟨owner, held⟩ := guard
  induction held generalizing t with
  | nil => simp [drop]
  | cons first later ih =>
    have hdrop : t.drop ⟨owner, first :: later⟩ = (t.release owner first).drop ⟨owner, later⟩ := rfl
    rw [hdrop, ih, holderOf_release]
    by_cases hsame : handle = first
    · subst hsame
      by_cases hheld : t.holderOf handle = some owner <;> simp [hheld]
    · simp [hsame]

/-- The table in which an owner holds the listed objects beside what there was. -/
def Grants (base t : LockTable) (owner : TxnId) (held : List Handle) : Prop :=
  ∀ handle, t.holderOf handle = if handle ∈ held then some owner else base.holderOf handle

/-- The owner holds nothing. -/
def Idle (t : LockTable) (owner : TxnId) : Prop := ∀ handle, t.holderOf handle ≠ some owner

/-- The object belongs to somebody else. -/
def Denies (t : LockTable) (owner : TxnId) (handle : Handle) : Prop :=
  ∃ holder, t.holderOf handle = some holder ∧ holder ≠ owner

theorem denies_iff {t : LockTable} {handle : Handle} :
    t.Denies owner handle ↔ t.holderOf handle ≠ none ∧ t.holderOf handle ≠ some owner := by
  unfold Denies
  cases t.holderOf handle with
  | none => simp
  | some holder => simp

instance (t : LockTable) (owner : TxnId) (handle : Handle) : Decidable (t.Denies owner handle) :=
  decidable_of_iff _ denies_iff.symm

/-- Dropping a guard frees all that has been granted to it. -/
theorem holderOf_drop_of_grants (grants : Grants base t owner held) (handle : Handle) :
    (t.drop ⟨owner, held⟩).holderOf handle =
      if handle ∈ held then none else base.holderOf handle := by
  rw [holderOf_drop, grants handle]
  by_cases hmem : handle ∈ held <;> simp [hmem]

/-- Dropping the guard of what was taken from nobody undoes the taking. -/
theorem drop_of_grants (grants : Grants base t owner held)
    (free : ∀ handle ∈ held, base.holderOf handle = none) : t.drop ⟨owner, held⟩ = base := by
  apply ext_holderOf
  intro handle
  rw [holderOf_drop_of_grants grants]
  split
  · next hmem => exact (free handle hmem).symm
  · rfl

/-- What is granted on top of a grant. -/
theorem Grants.trans (grants : Grants base t owner held) {t' : LockTable} {more : List Handle}
    (grants' : Grants t t' owner more) : Grants base t' owner (held ++ more) := by
  intro handle
  rw [grants' handle, grants handle]
  by_cases hmore : handle ∈ more <;> by_cases hheld : handle ∈ held <;> simp [hmore, hheld]

/-- A grant takes nothing from anybody else. -/
theorem Grants.holderOf_of_denied (grants : Grants base t owner held) {handle : Handle} {holder : TxnId}
    (held : t.holderOf handle = some holder) (other : holder ≠ owner) :
    base.holderOf handle = some holder := by
  rw [grants handle] at held
  split at held
  · exact absurd (Option.some.inj held).symm other
  · exact held

theorem Grants.not_denies (grants : Grants base t owner held)
    (allowed : ∀ handle ∈ held, ¬ base.Denies owner handle) {handle : Handle}
    (mine : ¬ t.Denies owner handle) : ¬ base.Denies owner handle := by
  by_cases hmem : handle ∈ held
  · exact allowed handle hmem
  · rwa [Denies, ← (grants handle).trans (if_neg hmem)]

/-- One lock is taken, unless it belongs to somebody else. The owner may have it from before. -/
theorem tryLock_cases (t : LockTable) (owner : TxnId) (handle : Handle) :
    (¬ t.Denies owner handle ∧ ∃ t', t.tryLock owner handle = .ok t' ∧ Grants t t' owner [handle]) ∨
    (∃ holder, t.holderOf handle = some holder ∧ holder ≠ owner ∧
      t.tryLock owner handle = .error holder) := by
  cases hnow : t.owners.find? handle with
  | none =>
    refine .inl ⟨fun denied => (denies_iff.mp denied).1 hnow, ⟨t.owners.insert handle owner⟩, ?_,
      fun other => ?_⟩
    · simp only [tryLock, hnow]
    · by_cases hsame : other = handle
      · subst hsame
        rw [if_pos (List.mem_singleton_self _)]
        exact SortedMap.find?_insert_self _ _ _
      · rw [if_neg (mt List.mem_singleton.mp hsame)]
        exact SortedMap.find?_insert_of_ne _ _ hsame
  | some holder =>
    by_cases hmine : holder = owner
    · subst hmine
      refine .inl ⟨fun denied => (denies_iff.mp denied).2 hnow, t, ?_, fun other => ?_⟩
      · simp only [tryLock, hnow, if_true]
      · split
        · next hsame => rwa [List.mem_singleton.mp hsame]
        · rfl
    · refine .inr ⟨holder, hnow, hmine, ?_⟩
      simp only [tryLock, hnow, if_neg hmine]

/-- An acquisition goes on from what it has taken so far: it gets the rest too, or it meets the first
object that somebody else holds, and all that it went through is free. -/
theorem acquireFrom_cases (policy : LockPolicy) (grants : Grants base t owner held)
    (allowed : ∀ handle ∈ held, ¬ base.Denies owner handle) (wanted : List Handle) :
    (∃ t', acquireFrom owner policy held wanted t = .ok ⟨owner, held ++ wanted⟩ t' ∧
      Grants base t' owner (held ++ wanted) ∧ ∀ handle ∈ wanted, ¬ base.Denies owner handle) ∨
    (∃ before handle after holder t', wanted = before ++ handle :: after ∧
      (∀ other ∈ before, ¬ base.Denies owner other) ∧ base.holderOf handle = some holder ∧
      holder ≠ owner ∧ acquireFrom owner policy held wanted t = .error (.locksUnavailable handle holder) t' ∧
      ∀ other, t'.holderOf other = if other ∈ held ++ before then none else base.holderOf other) := by
  induction wanted generalizing t held with
  | nil => exact .inl ⟨t, by simp [acquireFrom], by simpa using grants, by simp⟩
  | cons handle later ih =>
    have hassoc : ∀ rest, (held ++ [handle]) ++ rest = held ++ handle :: rest := by simp
    rcases tryLock_cases t owner handle with ⟨hopen, t', htry, hgrants⟩ |
      ⟨holder, hholder, hother, htry⟩
    · have hopen := grants.not_denies allowed hopen
      have hstep : acquireFrom owner policy held (handle :: later) t =
          acquireFrom owner policy (held ++ [handle]) later t' := by
        simp only [acquireFrom, lockOne_eq_tryLock, htry]
      have hallowed : ∀ other ∈ held ++ [handle], ¬ base.Denies owner other := by
        intro other hother
        rcases List.mem_append.mp hother with hother | hother
        · exact allowed other hother
        · rwa [List.mem_singleton.mp hother]
      rw [hstep]
      rcases ih (grants.trans hgrants) hallowed with ⟨t'', hrun, hgrants', hlater⟩ |
        ⟨before, other, after, holder, t'', rfl, hbefore, hholder, hother, hrun, hfreed⟩
      · rw [hassoc] at hrun hgrants'
        refine .inl ⟨t'', hrun, hgrants', fun other hother => ?_⟩
        rcases List.mem_cons.mp hother with rfl | hother
        · exact hopen
        · exact hlater other hother
      · rw [hassoc] at hfreed
        refine .inr ⟨handle :: before, other, after, holder, t'', rfl, fun earlier hearlier => ?_,
          hholder, hother, hrun, hfreed⟩
        rcases List.mem_cons.mp hearlier with rfl | hearlier
        · exact hopen
        · exact hbefore earlier hearlier
    · refine .inr ⟨[], handle, later, holder, t.drop ⟨owner, held⟩, rfl, nofun,
        grants.holderOf_of_denied hholder hother, hother, ?_, ?_⟩
      · simp only [acquireFrom, lockOne_eq_tryLock, htry]
      · rw [List.append_nil]
        exact holderOf_drop_of_grants grants

end LockTable

/-- Only a lock that another owner holds makes an acquisition fail. -/
theorem LockTable.acquireFrom_fails {owner : TxnId} {policy : LockPolicy} {held later : List Handle}
    {t t' : LockTable} {fault : Error} (failed : acquireFrom owner policy held later t = .error fault t') :
    ∃ handle holder, fault = .locksUnavailable handle holder := by
  induction later generalizing held t with
  | nil => cases failed
  | cons handle later ih =>
    unfold acquireFrom at failed
    split at failed
    · exact ih failed
    · next holder _ =>
      cases failed
      exact ⟨handle, holder, rfl⟩

/-- An owner gets all it asks for, or it is told the smallest object among them that belongs to somebody
else. Then all the smaller ones it asked for are free afterwards, also those it had before. -/
theorem LockTable.acquire_meets (base : LockTable) (owner : TxnId) (handles : List Handle)
    (policy : LockPolicy) :
    (∃ t', acquire owner handles policy base = .ok ⟨owner, Handle.sortDistinct handles⟩ t' ∧
      Grants base t' owner (Handle.sortDistinct handles) ∧
      ∀ handle ∈ handles, ¬ base.Denies owner handle) ∨
    (∃ handle ∈ handles, ∃ holder t', base.holderOf handle = some holder ∧ holder ≠ owner ∧
      acquire owner handles policy base = .error (.locksUnavailable handle holder) t' ∧
      (∀ other ∈ handles, base.Denies owner other → handle ≤ other) ∧
      ∀ other, t'.holderOf other =
        if other ∈ handles ∧ other < handle then none else base.holderOf other) := by
  have hnothing : Grants base base owner [] := fun handle => by simp
  have hascending := Handle.ascending_sortDistinct handles
  rcases acquireFrom_cases policy hnothing nofun (Handle.sortDistinct handles) with
    ⟨t', hrun, hgrants, hallowed⟩ |
    ⟨before, handle, after, holder, t', hsplit, hbefore, hholder, hother, hrun, hfreed⟩
  · exact .inl ⟨t', hrun, hgrants, fun handle hmem => hallowed handle (Handle.mem_sortDistinct.mpr hmem)⟩
  · have hmem : ∀ other, other ∈ handles ↔ other ∈ before ∨ other = handle ∨ other ∈ after := fun other => by
      rw [← Handle.mem_sortDistinct, hsplit, List.mem_append, List.mem_cons]
    rw [hsplit] at hascending
    obtain ⟨-, hrest, hacross⟩ := List.pairwise_append.mp hascending
    have hlater := (List.pairwise_cons.mp hrest).1
    refine .inr ⟨handle, (hmem handle).mpr (.inr (.inl rfl)), holder, t', hholder, hother, hrun,
      fun other hwanted denied => ?_, fun other => ?_⟩
    -- what comes before in ascending order is not denied, and what comes after is greater
    · rcases (hmem other).mp hwanted with hearlier | rfl | hgreater
      · exact absurd denied (hbefore other hearlier)
      · exact Nat.le_refl _
      · exact Nat.le_of_lt (hlater other hgreater)
    · have hsmaller : other ∈ before ↔ other ∈ handles ∧ other < handle := by
        rw [hmem]
        constructor
        · intro hearlier
          exact ⟨.inl hearlier, hacross other hearlier handle List.mem_cons_self⟩
        · rintro ⟨hearlier | rfl | hgreater, hlt⟩
          · exact hearlier
          · exact absurd hlt (Nat.lt_irrefl _)
          · exact absurd hlt (Nat.lt_asymm (hlater other hgreater))
      rw [hfreed other, List.nil_append]
      simp only [hsmaller]

/-- An owner that holds nothing gets all it asks for, each lock from nobody, or it is told the smallest
object among them that somebody holds, and by whom, and the table stays as it is. -/
theorem LockTable.acquire_smallest {base : LockTable} {owner : TxnId} (idle : base.Idle owner)
    (handles : List Handle) (policy : LockPolicy) :
    (∃ t', acquire owner handles policy base = .ok ⟨owner, Handle.sortDistinct handles⟩ t' ∧
      Grants base t' owner (Handle.sortDistinct handles) ∧
      ∀ handle ∈ handles, base.holderOf handle = none) ∨
    (∃ handle ∈ handles, ∃ holder, base.holderOf handle = some holder ∧
      acquire owner handles policy base = .error (.locksUnavailable handle holder) base ∧
      ∀ other ∈ handles, base.holderOf other ≠ none → handle ≤ other) := by
  have hdenied : ∀ other, base.Denies owner other ↔ base.holderOf other ≠ none := fun other =>
    denies_iff.trans (and_iff_left (idle other))
  rcases acquire_meets base owner handles policy with ⟨t', hrun, hgrants, hallowed⟩ |
    ⟨handle, hmem, holder, t', hholder, -, hrun, hsmallest, hfreed⟩
  · refine .inl ⟨t', hrun, hgrants, fun handle hmem => ?_⟩
    exact Classical.not_not.mp (mt (hdenied handle).mpr (hallowed handle hmem))
  · have hsmallest' : ∀ other ∈ handles, base.holderOf other ≠ none → handle ≤ other :=
      fun other hother held => hsmallest other hother ((hdenied other).mpr held)
    have hsame : t' = base := by
      apply ext_holderOf
      intro other
      rw [hfreed other]
      split
      · next hsmaller =>
        have hfree : base.holderOf other = none := Classical.not_not.mp fun held =>
          Nat.not_lt.mpr (hsmallest' other hsmaller.1 held) hsmaller.2
        exact hfree.symm
      · rfl
    exact .inr ⟨handle, hmem, holder, hholder, hsame ▸ hrun, hsmallest'⟩

/-- The same, whichever of the held objects it is. -/
theorem LockTable.acquire_cases {base : LockTable} {owner : TxnId} (idle : base.Idle owner)
    (handles : List Handle) (policy : LockPolicy) :
    (∃ t', acquire owner handles policy base = .ok ⟨owner, Handle.sortDistinct handles⟩ t' ∧
      Grants base t' owner (Handle.sortDistinct handles) ∧
      ∀ handle ∈ handles, base.holderOf handle = none) ∨
    (∃ handle ∈ handles, ∃ holder, base.holderOf handle = some holder ∧
      acquire owner handles policy base = .error (.locksUnavailable handle holder) base) := by
  refine (acquire_smallest idle handles policy).imp_right ?_
  rintro ⟨handle, hmem, holder, hholder, hrun, -⟩
  exact ⟨handle, hmem, holder, hholder, hrun⟩

end TransactionalHeap
