import Mathlib.Data.List.Induction
import TransactionalHeap.Proofs.Locks.Exclusion

/-!
# Acquisitions of an owner that has locks already

The lock table knows owners, not guards. So an owner that asks for locks while a guard of its own is
out can lose what that guard lists: an acquisition that fails gives back all that it went through, also
what the owner had before, and a dropped guard gives back what another guard of the same owner lists
too. This module says for any table which locks are given back when
(`GuardedTable.acquire_gives_back`).
-/
namespace TransactionalHeap

namespace GuardedTable

variable {s : GuardedTable} {owner : TxnId} {h : Handle}

/-- The action takes a lock from its owner. Either a guard of the owner that lists the object is dropped,
or the owner asks for the object again, and for a greater one that belongs to somebody else, but for
no smaller one that does. -/
def Frees (s : GuardedTable) (owner : TxnId) (h : Handle) : LockAction → Prop
  | .acquire asker handles _ =>
    asker = owner ∧ h ∈ handles ∧ (∃ other ∈ handles, s.table.Denies owner other) ∧
      ∀ other ∈ handles, s.table.Denies owner other → h < other
  | .drop n => ∃ guard, s.guards[n]? = some guard ∧ guard.owner = owner ∧ h ∈ guard.held

/-- What one action does to a lock that is held: it stays with its owner, or nobody has it. -/
def Settles (s : GuardedTable) (owner : TxnId) (h : Handle) (a : LockAction) : Prop :=
  (¬ s.Frees owner h a ∧ (s.step a).table.holderOf h = some owner) ∨
    (s.Frees owner h a ∧ (s.step a).table.holderOf h = none)

theorem settles_acquire (held : s.table.holderOf h = some owner) (asker : TxnId)
    (handles : List Handle) (policy : LockPolicy) :
    s.Settles owner h (.acquire asker handles policy) := by
  rcases LockTable.acquire_meets s.table asker handles policy with ⟨t, hrun, grants, allowed⟩ |
    ⟨met, hmet, holder, t, hholder, hother, hrun, smallest, freed⟩
  · refine .inl ⟨?_, ?_⟩
    · rintro ⟨rfl, -, ⟨other, hother, denied⟩, -⟩
      exact allowed other hother denied
    · simp only [step, hrun]
      rw [grants h]
      split
      · next hmem =>
        -- the asker gets it only from nobody or from itself
        have hmine := allowed h (Handle.mem_sortDistinct.mp hmem)
        rw [LockTable.denies_iff, held] at hmine
        exact Classical.not_not.mp fun hne => hmine ⟨Option.some_ne_none _, fun hsame => hne hsame.symm⟩
      · exact held
  · have hdenied : s.table.Denies asker met := ⟨holder, hholder, hother⟩
    simp only [Settles, step, hrun]
    rw [freed h]
    split
    · next hsmaller =>
      have hsame : asker = owner := by
        refine Classical.not_not.mp fun hne => Nat.not_lt.mpr (smallest h hsmaller.1 ?_) hsmaller.2
        exact ⟨owner, held, fun hsame => hne hsame.symm⟩
      refine .inr ⟨⟨hsame, hsmaller.1, ⟨met, hmet, hsame ▸ hdenied⟩, fun other hwanted denied => ?_⟩, rfl⟩
      exact Nat.lt_of_lt_of_le hsmaller.2 (smallest other hwanted (hsame ▸ denied))
    · next hgreater =>
      refine .inl ⟨?_, held⟩
      rintro ⟨rfl, hwanted, -, hbelow⟩
      exact hgreater ⟨hwanted, hbelow met hmet hdenied⟩

theorem settles_drop (held : s.table.holderOf h = some owner) (n : Nat) :
    s.Settles owner h (.drop n) := by
  cases hfound : s.guards[n]? with
  | none =>
    have hstep : s.step (.drop n) = s := by simp only [step, hfound]
    rw [Settles, hstep]
    refine .inl ⟨?_, held⟩
    rintro ⟨guard, hguard, -⟩
    rw [hfound] at hguard
    cases hguard
  | some guard =>
    have hstep : (s.step (.drop n)).table = s.table.drop guard := by simp only [step, hfound]
    have hfrees : s.Frees owner h (.drop n) ↔ h ∈ guard.held ∧ s.table.holderOf h = some guard.owner := by
      rw [held]
      constructor
      · rintro ⟨dropped, hdropped, rfl, hmem⟩
        cases hfound.symm.trans hdropped
        exact ⟨hmem, rfl⟩
      · rintro ⟨hmem, hsame⟩
        exact ⟨guard, hfound, (Option.some.inj hsame).symm, hmem⟩
    rw [Settles, hstep, LockTable.holderOf_drop, hfrees]
    split
    · next hdropped => exact .inr ⟨hdropped, rfl⟩
    · next hkept => exact .inl ⟨hkept, held⟩

theorem settles_step (held : s.table.holderOf h = some owner) : ∀ a, s.Settles owner h a
  | .acquire asker handles policy => settles_acquire held asker handles policy
  | .drop n => settles_drop held n

theorem run_append (before after : List LockAction) (s : GuardedTable) :
    s.run (before ++ after) = (s.run before).run after := List.foldl_append

/-- An owner has its lock all along a run just when no action takes it away. -/
theorem holderOf_run (held : s.table.holderOf h = some owner) (actions : List LockAction) :
    (∀ before, before <+: actions → (s.run before).table.holderOf h = some owner) ↔
      ∀ before a, before ++ [a] <+: actions → ¬ (s.run before).Frees owner h a := by
  constructor
  · intro kept before a hprefix
    have hbefore := kept before ((List.prefix_append before [a]).trans hprefix)
    have hafter : ((s.run before).step a).table.holderOf h = some owner := by
      have hkept := kept (before ++ [a]) hprefix
      rwa [run_append] at hkept
    rcases settles_step hbefore a with ⟨hstays, -⟩ | ⟨-, hnone⟩
    · exact hstays
    · rw [hnone] at hafter
      cases hafter
  · intro undisturbed before
    induction before using List.reverseRecOn with
    | nil => exact fun _ => held
    | append_singleton before a ih =>
      intro hprefix
      have hbefore := ih ((List.prefix_append before [a]).trans hprefix)
      rw [run_append]
      rcases settles_step hbefore a with ⟨-, hstays⟩ | ⟨hfrees, -⟩
      · exact hstays
      · exact absurd hfrees (undisturbed before a hprefix)

/-- What an acquisition leaves that has met a lock of somebody else: the smallest such lock among the
requested ones. All requested objects below it are free then, and the rest is as it was; so the table is
the same just when the owner had none of these. -/
structure GivesBack (t t' : LockTable) (owner : TxnId) (handles : List Handle) (met : Handle)
    (holder : TxnId) : Prop where
  wanted : met ∈ handles
  holds : t.holderOf met = some holder
  other : holder ≠ owner
  smallest : ∀ h ∈ handles, t.Denies owner h → met ≤ h
  leaves : ∀ h, t'.holderOf h =
    if h ∈ handles ∧ h < met ∧ t.holderOf h = some owner then none else t.holderOf h
  unchanged : (∀ h, t'.holderOf h = t.holderOf h) ↔
    ∀ h ∈ handles, h < met → t.holderOf h ≠ some owner

theorem acquire_fails {t t' : LockTable} {handles : List Handle} {policy : LockPolicy} {fault : Error}
    (failed : LockTable.acquire owner handles policy t = .error fault t') :
    ∃ met holder, fault = .locksUnavailable met holder ∧ GivesBack t t' owner handles met holder := by
  rcases LockTable.acquire_meets t owner handles policy with ⟨t'', hrun, -, -⟩ |
    ⟨met, hmet, holder, t'', hholder, hother, hrun, smallest, freed⟩
  · rw [hrun] at failed
    cases failed
  · rw [hrun] at failed
    cases failed
    -- below the object it met, a requested one was free or the owner's
    have hleaves : ∀ h, t'.holderOf h =
        if h ∈ handles ∧ h < met ∧ t.holderOf h = some owner then none else t.holderOf h := by
      intro h
      rw [freed h]
      by_cases hsmaller : h ∈ handles ∧ h < met
      · have hmine : ¬ t.Denies owner h := fun denied =>
          Nat.not_lt.mpr (smallest h hsmaller.1 denied) hsmaller.2
        rw [LockTable.denies_iff] at hmine
        rw [if_pos hsmaller]
        split
        · rfl
        · next hnot =>
          have hfree : t.holderOf h = none := Classical.not_not.mp fun hne =>
            hmine ⟨hne, fun held => hnot ⟨hsmaller.1, hsmaller.2, held⟩⟩
          exact hfree.symm
      · rw [if_neg hsmaller, if_neg fun h => hsmaller ⟨h.1, h.2.1⟩]
    refine ⟨met, holder, rfl, hmet, hholder, hother, smallest, hleaves, fun same h hwanted hlt held => ?_,
      fun nothing h => ?_⟩
    · have hnone := hleaves h
      rw [if_pos ⟨hwanted, hlt, held⟩, same h, held] at hnone
      cases hnone
    · rw [hleaves h, if_neg fun lost => nothing h lost.1 lost.2.1 lost.2.2]

/-- What comes of asking for locks, of any table, with or without locks of one's own, and under either
policy. A failed acquisition gives back what it went through. After a successful one its guard is out
and the owner holds all that the guard lists. It goes on holding each of these just as long as no action
frees it: that guard or another one of the same owner that lists it is dropped, or the owner fails to
get a greater lock together with it. -/
theorem acquire_gives_back (s : GuardedTable) (owner : TxnId) (handles : List Handle)
    (policy : LockPolicy) :
    let s' := s.step (.acquire owner handles policy)
    (∀ fault t, LockTable.acquire owner handles policy s.table = .error fault t →
      s' = ⟨t, s.guards⟩ ∧ ∃ met holder, fault = .locksUnavailable met holder ∧
        GivesBack s.table t owner handles met holder) ∧
    (∀ guard t, LockTable.acquire owner handles policy s.table = .ok guard t →
      s' = ⟨t, s.guards ++ [guard]⟩ ∧ guard.owner = owner ∧ (∀ h, h ∈ guard.held ↔ h ∈ handles) ∧
      (∀ h ∉ guard.held, t.holderOf h = s.table.holderOf h) ∧
      ∀ h ∈ guard.held, ∀ later,
        (∀ before, before <+: later → (s'.run before).table.holderOf h = some owner) ↔
          ∀ before a, before ++ [a] <+: later → ¬ (s'.run before).Frees owner h a) := by
  intro s'
  refine ⟨fun fault t herror => ⟨?_, acquire_fails herror⟩, fun guard t hok => ?_⟩
  · simp only [s', step, herror]
  · have hstep : s' = ⟨t, s.guards ++ [guard]⟩ := by simp only [s', step, hok]
    rcases LockTable.acquire_meets s.table owner handles policy with ⟨t', hrun, grants, -⟩ |
      ⟨_, _, _, _, _, _, hrun, _⟩
    · cases hok.symm.trans hrun
      refine ⟨hstep, rfl, fun h => Handle.mem_sortDistinct, fun h hfree => ?_, fun h hmem later => ?_⟩
      · rw [grants h, if_neg hfree]
      · refine holderOf_run ?_ later
        rw [hstep]
        exact (grants h).trans (if_pos hmem)
    · cases hok.symm.trans hrun

/-- One owner has locked the second object, and another one the first. -/
def entangled : GuardedTable :=
  run [.acquire 7 [⟨2⟩] .failFast, .acquire 8 [⟨1⟩] .failFast] {}

/-- Asking for both objects loses the one that was there before, whose guard is still out. And an owner
that asks for its object once more, and gets it, holds it until one of the two guards is dropped. -/
theorem acquire_gives_back_entangled :
    (∃ t, LockTable.acquire 8 [⟨2⟩, ⟨1⟩] (.spin 3) entangled.table =
        .error (.locksUnavailable ⟨2⟩ 7) t ∧ t.holderOf ⟨1⟩ = none ∧ t.holderOf ⟨2⟩ = some 7) ∧
    ∃ t, LockTable.acquire 8 [⟨1⟩, ⟨3⟩] .failFast entangled.table = .ok ⟨8, [⟨1⟩, ⟨3⟩]⟩ t ∧
      t.holderOf ⟨1⟩ = some 8 := by
  have hlost : ∃ t, LockTable.acquire 8 [⟨2⟩, ⟨1⟩] (.spin 3) entangled.table =
      .error (.locksUnavailable ⟨2⟩ 7) t := ⟨_, rfl⟩
  have hgot : ∃ t, LockTable.acquire 8 [⟨1⟩, ⟨3⟩] .failFast entangled.table =
      .ok ⟨8, [⟨1⟩, ⟨3⟩]⟩ t := ⟨_, rfl⟩
  obtain ⟨t, hlost⟩ := hlost
  obtain ⟨t', hgot⟩ := hgot
  obtain ⟨-, met, holder, hfault, gives⟩ := (acquire_gives_back entangled 8 _ _).1 _ _ hlost
  cases hfault
  refine ⟨⟨t, hlost, ?_, ?_⟩, t', hgot, ?_⟩
  · rw [gives.leaves, if_pos (by decide)]
  · rw [gives.leaves, if_neg (by decide)]
    exact gives.holds
  · obtain ⟨hstep, -, -, -, lasts⟩ := (acquire_gives_back entangled 8 _ _).2 _ _ hgot
    have hkept := (lasts ⟨1⟩ (by decide) []).mpr fun before a hprefix => by
      simpa using List.prefix_nil.mp hprefix
    have hnow := hkept [] List.prefix_rfl
    rw [hstep] at hnow
    exact hnow

/-- So a failed acquisition can change who holds what, and an object that a guard lists can be free while
the guard is out. -/
theorem failed_acquire_frees :
    (¬ ∀ (t t' : LockTable) (owner : TxnId) (handles : List Handle) (policy : LockPolicy) (fault : Error),
      LockTable.acquire owner handles policy t = .error fault t' → ∀ h, t'.holderOf h = t.holderOf h) ∧
    ¬ ∀ actions, ∀ guard ∈ (run actions {}).guards, ∀ h ∈ guard.held,
      (run actions {}).table.holderOf h = some guard.owner := by
  constructor
  · intro unchanged
    have hsame := unchanged entangled.table _ 8 [⟨1⟩, ⟨2⟩] .failFast (.locksUnavailable ⟨2⟩ 7) rfl ⟨1⟩
    revert hsame
    decide
  · intro locked
    have hheld := locked [.acquire 7 [⟨2⟩] .failFast, .acquire 8 [⟨1⟩] .failFast,
      .acquire 8 [⟨1⟩, ⟨2⟩] .failFast] ⟨8, [⟨1⟩]⟩ (by decide) ⟨1⟩ (by decide)
    revert hheld
    decide

end GuardedTable

end TransactionalHeap
