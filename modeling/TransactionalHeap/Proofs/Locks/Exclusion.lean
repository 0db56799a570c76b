import TransactionalHeap.Proofs.Locks.Holders

/-!
# Locks exclude each other

A lock table is used through guards. An acquisition brings one out, and dropping it gives the locks
back. As long as nobody asks for locks while a guard of its own is out, the table holds the locks of
the guards that are out and nothing else, and no two of these share an object
(`GuardedTable.guards_exclude`).
-/
namespace TransactionalHeap

/-- A lock table, with the guards that are out. -/
structure GuardedTable where
  table : LockTable := {}
  guards : List LockGuard := []

/-- What is done with a lock table: locks are asked for, or one of the guards is dropped. -/
inductive LockAction where
  | acquire (owner : TxnId) (handles : List Handle) (policy : LockPolicy)
  | drop (n : Nat)
  deriving DecidableEq, Repr

/-- How many more times a held lock is tried makes no difference while nobody else runs. -/
theorem LockTable.acquire_policy (owner : TxnId) (handles : List Handle) (policy other : LockPolicy)
    (t : LockTable) : acquire owner handles policy t = acquire owner handles other t := by
  have hfrom : ∀ wanted held t,
      acquireFrom owner policy held wanted t = acquireFrom owner other held wanted t := by
    intro wanted
    induction wanted with
    | nil => exact fun _ _ => rfl
    | cons handle later ih =>
      intro held t
      simp only [acquireFrom, lockOne_eq_tryLock, ih]
  exact hfrom _ _ t

namespace GuardedTable

variable {s : GuardedTable} {owner : TxnId}

def step (s : GuardedTable) : LockAction → GuardedTable
  | .acquire owner handles policy =>
    match LockTable.acquire owner handles policy s.table with
    | .ok guard table => ⟨table, s.guards ++ [guard]⟩
    | .error _ table => { s with table }
  | .drop n =>
    match s.guards[n]? with
    | some guard => ⟨s.table.drop guard, s.guards.eraseIdx n⟩
    | none => s

def run (actions : List LockAction) (s : GuardedTable) : GuardedTable := actions.foldl step s

/-- No guard of the owner is out. -/
def Unguarded (s : GuardedTable) (owner : TxnId) : Prop := ∀ guard ∈ s.guards, guard.owner ≠ owner

instance (s : GuardedTable) (owner : TxnId) : Decidable (s.Unguarded owner) :=
  inferInstanceAs (Decidable (∀ guard ∈ s.guards, guard.owner ≠ owner))

/-- Nobody asks for locks while a guard of its own is out. -/
def Permits (s : GuardedTable) : LockAction → Prop
  | .acquire owner _ _ => s.Unguarded owner
  | .drop _ => True

instance (s : GuardedTable) : (a : LockAction) → Decidable (s.Permits a)
  | .acquire owner _ _ => inferInstanceAs (Decidable (s.Unguarded owner))
  | .drop _ => .isTrue trivial

/-- The same of every action of a run. -/
def Orderly : List LockAction → GuardedTable → Prop
  | [], _ => True
  | a :: later, s => s.Permits a ∧ Orderly later (s.step a)

instance instDecidableOrderly : (actions : List LockAction) → (s : GuardedTable) →
    Decidable (Orderly actions s)
  | [], _ => .isTrue trivial
  | a :: later, s =>
    have := instDecidableOrderly later (s.step a)
    inferInstanceAs (Decidable (s.Permits a ∧ Orderly later (s.step a)))

/-- The object is among the locks of a guard of the holder, who is somebody else. -/
def KeptBy (s : GuardedTable) (owner : TxnId) (h : Handle) (holder : TxnId) : Prop :=
  ∃ guard ∈ s.guards, guard.owner = holder ∧ holder ≠ owner ∧ h ∈ guard.held

/-- The table holds the locks of the guards that are out, of which no two share an object. -/
structure Exclusive (s : GuardedTable) : Prop where
  holds : ∀ h owner, s.table.holderOf h = some owner ↔
    ∃ guard ∈ s.guards, guard.owner = owner ∧ h ∈ guard.held
  disjoint : s.guards.Pairwise fun guard other => ∀ h ∈ guard.held, h ∉ other.held
  ascending : ∀ guard ∈ s.guards, guard.held.Pairwise (· < ·)

namespace Exclusive

theorem idle (exclusive : s.Exclusive) (unguarded : s.Unguarded owner) : s.table.Idle owner := by
  intro h hheld
  obtain ⟨guard, hguard, howner, -⟩ := (exclusive.holds h owner).mp hheld
  exact unguarded guard hguard howner

/-- What no guard holds is free. -/
theorem holderOf_eq_none (exclusive : s.Exclusive) {h : Handle} :
    s.table.holderOf h = none ↔ ∀ guard ∈ s.guards, h ∉ guard.held := by
  rw [Option.eq_none_iff_forall_ne_some]
  constructor
  · intro free guard hguard hmem
    exact free guard.owner ((exclusive.holds h guard.owner).mpr ⟨guard, hguard, rfl, hmem⟩)
  · intro free owner hheld
    obtain ⟨guard, hguard, -, hmem⟩ := (exclusive.holds h owner).mp hheld
    exact free guard hguard hmem

/-- Somebody without a guard meets just the locks of the others. -/
theorem keptBy_iff (exclusive : s.Exclusive) (unguarded : s.Unguarded owner) {h : Handle}
    {holder : TxnId} : s.KeptBy owner h holder ↔ s.table.holderOf h = some holder := by
  rw [exclusive.holds]
  constructor
  · rintro ⟨guard, hguard, howner, -, hmem⟩
    exact ⟨guard, hguard, howner, hmem⟩
  · rintro ⟨guard, hguard, howner, hmem⟩
    exact ⟨guard, hguard, howner, howner ▸ unguarded guard hguard, hmem⟩

/-- A new guard holds what nobody held before. -/
theorem add (exclusive : s.Exclusive) {table : LockTable} {held : List Handle}
    (grants : LockTable.Grants s.table table owner held)
    (free : ∀ h ∈ held, s.table.holderOf h = none) (ascending : held.Pairwise (· < ·)) :
    Exclusive ⟨table, s.guards ++ [⟨owner, held⟩]⟩ where
  holds h other := by
    simp only [List.mem_append, List.mem_singleton, or_and_right, exists_or, exists_eq_left]
    rw [grants h]
    split
    · next hmem =>
      have hnone := exclusive.holderOf_eq_none.mp (free h hmem)
      constructor
      · intro hsame
        exact .inr ⟨Option.some.inj hsame, hmem⟩
      · rintro (⟨guard, hguard, -, hheld⟩ | ⟨rfl, -⟩)
        · exact absurd hheld (hnone guard hguard)
        · rfl
    · next hmem =>
      rw [exclusive.holds]
      simp only [hmem, and_false, or_false]
  disjoint := by
    refine List.pairwise_append.mpr ⟨exclusive.disjoint, List.pairwise_singleton _ _, ?_⟩
    intro guard hguard new hnew h hold hmem
    rw [List.mem_singleton.mp hnew] at hmem
    exact exclusive.holderOf_eq_none.mp (free h hmem) guard hguard hold
  ascending guard hguard := by
    rcases List.mem_append.mp hguard with hguard | hguard
    · exact exclusive.ascending guard hguard
    · rw [List.mem_singleton.mp hguard]
      exact ascending

/-- Dropping a guard frees all that it holds, and nothing of the others. -/
theorem remove {table : LockTable} {before after : List LockGuard} {guard : LockGuard}
    (exclusive : Exclusive ⟨table, before ++ guard :: after⟩) :
    Exclusive ⟨table.drop guard, before ++ after⟩ := by
  obtain ⟨holds, disjoint, ascending⟩ := exclusive
  obtain ⟨hbefore, hrest, hacross⟩ := List.pairwise_append.mp disjoint
  obtain ⟨hguard, hafter⟩ := List.pairwise_cons.mp hrest
  have hmine : ∀ h ∈ guard.held, table.holderOf h = some guard.owner := fun h hmem =>
    (holds h guard.owner).mpr ⟨guard, by simp, rfl, hmem⟩
  have hothers : ∀ other ∈ before ++ after, ∀ h ∈ other.held, h ∉ guard.held := by
    intro other hother h hmem hheld
    rcases List.mem_append.mp hother with hother | hother
    · exact hacross other hother guard List.mem_cons_self h hmem hheld
    · exact hguard other hother h hheld hmem
  refine ⟨fun h owner => ?_, ?_, fun other hother => ascending other ?_⟩
  · rw [LockTable.holderOf_drop]
    split
    · next hdropped =>
      refine ⟨nofun, ?_⟩
      rintro ⟨other, hother, -, hmem⟩
      exact absurd hdropped.1 (hothers other hother h hmem)
    · next hkept =>
      have hfree : h ∉ guard.held := fun hmem => hkept ⟨hmem, hmine h hmem⟩
      rw [holds]
      simp only [List.mem_append, List.mem_cons, or_and_right, exists_or, exists_eq_left, hfree,
        and_false, false_or]
  · exact List.pairwise_append.mpr ⟨hbefore, hafter, fun other hother later hlater =>
      hacross other hother later (List.mem_cons_of_mem _ hlater)⟩
  · rcases List.mem_append.mp hother with hother | hother
    · exact List.mem_append_left _ hother
    · exact List.mem_append_right _ (List.mem_cons_of_mem _ hother)

theorem step (exclusive : s.Exclusive) {a : LockAction} (permitted : s.Permits a) :
    (s.step a).Exclusive := by
  cases a with
  | acquire owner handles policy =>
    rcases LockTable.acquire_cases (exclusive.idle permitted) handles policy with
      ⟨table, hrun, grants, free⟩ | ⟨h, -, holder, -, hrun⟩
    · simp only [GuardedTable.step, hrun]
      exact exclusive.add grants (fun h hmem => free h (Handle.mem_sortDistinct.mp hmem))
        (Handle.ascending_sortDistinct handles)
    · simp only [GuardedTable.step, hrun]
      exact exclusive
  | drop n =>
    cases hfound : s.guards[n]? with
    | none =>
      simp only [GuardedTable.step, hfound]
      exact exclusive
    | some guard =>
      obtain ⟨hn, hguard⟩ := List.getElem?_eq_some_iff.mp hfound
      have hsplit : s.guards = s.guards.take n ++ guard :: s.guards.drop (n + 1) := by
        rw [← hguard, List.getElem_cons_drop, List.take_append_drop]
      simp only [GuardedTable.step, hfound, List.eraseIdx_eq_take_drop_succ]
      exact remove (hsplit ▸ exclusive)

theorem run (exclusive : s.Exclusive) {actions : List LockAction} (orderly : Orderly actions s) :
    (s.run actions).Exclusive := by
  induction actions generalizing s with
  | nil => exact exclusive
  | cons a later ih => exact ih (exclusive.step orderly.1) orderly.2

end Exclusive

theorem exclusive_empty : Exclusive {} where
  holds h owner := by simp [LockTable.holderOf]
  disjoint := .nil
  ascending := nofun

/-- What an acquisition comes to: it succeeds just where no requested object is among the locks of
somebody else, with a guard for all of them. Otherwise it names the smallest one that is, with the
holder, and leaves the table as it was. -/
structure Answers (s : GuardedTable) (owner : TxnId) (handles : List Handle)
    (result : EStateM.Result Error LockTable LockGuard) : Prop where
  succeeds : (∃ guard table, result = .ok guard table) ↔
    ∀ h ∈ handles, ∀ holder, ¬ s.KeptBy owner h holder
  guard : ∀ guard table, result = .ok guard table →
    guard.owner = owner ∧ (∀ h, h ∈ guard.held ↔ h ∈ handles) ∧ guard.held.Pairwise (· < ·)
  fault : ∀ fault table, result = .error fault table →
    table = s.table ∧ ∃ h ∈ handles, ∃ holder, fault = .locksUnavailable h holder ∧
      s.KeptBy owner h holder ∧ ∀ other ∈ handles, ∀ holder', s.KeptBy owner other holder' → h ≤ other

theorem Exclusive.answers (exclusive : s.Exclusive) (unguarded : s.Unguarded owner)
    (handles : List Handle) (policy : LockPolicy) :
    s.Answers owner handles (LockTable.acquire owner handles policy s.table) := by
  have hkept : ∀ {h holder}, s.KeptBy owner h holder ↔ s.table.holderOf h = some holder :=
    exclusive.keptBy_iff unguarded
  rcases LockTable.acquire_smallest (exclusive.idle unguarded) handles policy with
    ⟨table, hrun, -, free⟩ | ⟨h, hmem, holder, hholder, hrun, smallest⟩
  · rw [hrun]
    refine ⟨⟨fun _ h hmem holder kept => ?_, fun _ => ⟨_, _, rfl⟩⟩, fun guard table hok => ?_, nofun⟩
    · rw [hkept, free h hmem] at kept
      cases kept
    · cases hok
      exact ⟨rfl, fun h => Handle.mem_sortDistinct, Handle.ascending_sortDistinct handles⟩
  · rw [hrun]
    refine ⟨⟨nofun, fun free => absurd (hkept.mpr hholder) (free h hmem holder)⟩, nofun,
      fun fault table herror => ?_⟩
    cases herror
    refine ⟨rfl, h, hmem, holder, rfl, hkept.mpr hholder, fun other hother holder' kept => ?_⟩
    refine smallest other hother fun hnone => ?_
    rw [hkept, hnone] at kept
    cases kept

/-- Whatever is done with a lock table, while nobody asks for locks with a guard of its own out: the
table maps just the objects of the guards that are out, each to the guard's owner, no object is in two
of them, and each of them lists its objects in ascending order. So the table is empty when no guard is
out. Every acquisition answers as it should, and it makes no difference how often a held lock is tried
again. -/
theorem guards_exclude {actions : List LockAction} (orderly : Orderly actions {}) :
    let s := run actions {}
    s.Exclusive ∧ (s.guards = [] → s.table.owners = ∅) ∧
    ∀ owner handles, (∀ policy, s.Unguarded owner →
        s.Answers owner handles (LockTable.acquire owner handles policy s.table)) ∧
      ∀ attempts, LockTable.acquire owner handles (.spin attempts) s.table =
        LockTable.acquire owner handles .failFast s.table := by
  intro s
  have exclusive : s.Exclusive := exclusive_empty.run orderly
  refine ⟨exclusive, fun hnone => ?_, fun owner handles =>
    ⟨fun policy unguarded => exclusive.answers unguarded handles policy, fun attempts => ?_⟩⟩
  · refine SortedMap.ext_find? fun h => exclusive.holderOf_eq_none.mpr fun guard hguard => ?_
    rw [hnone] at hguard
    cases hguard
  · exact LockTable.acquire_policy owner handles _ _ s.table

/-- Two owners take what the other does not want, a third one meets both, and the first gives back. -/
def contended : List LockAction :=
  [.acquire 1 [⟨30⟩, ⟨10⟩, ⟨30⟩] .failFast, .acquire 2 [⟨20⟩] (.spin 3),
    .acquire 3 [⟨40⟩, ⟨30⟩, ⟨20⟩, ⟨5⟩] (.spin 2), .drop 0]

/-- The third owner still does not get what the second one holds. -/
theorem guards_exclude_contended :
    Orderly contended {} ∧ (run contended {}).guards = [⟨2, [⟨20⟩]⟩] ∧
    (run contended {}).table.holderOf ⟨20⟩ = some 2 ∧ (run contended {}).table.holderOf ⟨30⟩ = none ∧
    ¬ ∃ guard table, LockTable.acquire 3 [⟨40⟩, ⟨30⟩, ⟨20⟩, ⟨5⟩] (.spin 2) (run contended {}).table =
      .ok guard table := by
  have orderly : Orderly contended {} := by decide
  have hguards : (run contended {}).guards = [⟨2, [⟨20⟩]⟩] := by decide
  obtain ⟨exclusive, -, answers⟩ := guards_exclude orderly
  have hkept : ⟨2, [⟨20⟩]⟩ ∈ (run contended {}).guards := by rw [hguards]; exact List.mem_singleton_self _
  refine ⟨orderly, hguards, (exclusive.holds ⟨20⟩ 2).mpr ⟨_, hkept, rfl, by simp⟩, ?_, fun succeeded => ?_⟩
  · refine exclusive.holderOf_eq_none.mpr fun guard hguard => ?_
    rw [hguards, List.mem_singleton] at hguard
    rw [hguard]
    decide
  · have hfree := ((answers 3 [⟨40⟩, ⟨30⟩, ⟨20⟩, ⟨5⟩]).1 (.spin 2) (by decide)).succeeds.mp succeeded
    exact hfree ⟨20⟩ (by simp) 2 ⟨_, hkept, rfl, by decide, by simp⟩

end GuardedTable

end TransactionalHeap
