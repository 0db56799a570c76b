import TransactionalHeap.Object.Stock
import TransactionalHeap.Proofs.Heap.WriteOrder

/-!
# Commits that have nothing to do with each other

Commits that write different objects do not get into each other's way, even if they all start at one
old snapshot: in whatever order they come, each of them goes through and gets the next version. In the
end every object is as its own commit has left it, so only the versions can tell the order
(`Heap.disjoint_commits_commute`).
-/
namespace TransactionalHeap

/-- As many versions as asked for, each the next one of that before. -/
def Version.following : Version → Nat → List Version
  | _, 0 => []
  | v, n + 1 => v.next :: following v.next n

/-- While there is room for them, they are the numbers that follow. -/
theorem Version.toNat_following {v : Version} {n : Nat} (room : v.toNat + n < 2 ^ 64) :
    (following v n).map UInt64.toNat = List.range' (v.toNat + 1) n := by
  induction n generalizing v with
  | zero => rfl
  | succ n ih =>
    have hnext : v.next.toNat = v.toNat + 1 := toNat_next (by omega)
    rw [following, List.map_cons, ih (by omega), hnext, List.range'_succ]

section

variable [Transactables]

/-- A revision apart from its version. -/
def Record.revision (r : Record) : PendingRecord where
  handle := r.handle
  type := r.type
  materializer := r.materializer
  fields := r.fields

section LastWrite

variable {handle : Handle} {family family' : List (List PendingRecord)} {w : PendingRecord}

theorem lastWrite_append (handle : Handle) (earlier later : List PendingRecord) :
    lastWrite handle (earlier ++ later) = (lastWrite handle later).or (lastWrite handle earlier) := by
  rw [lastWrite, List.filter_append, List.getLast?_append]
  rfl

/-- No two of the lists write the same object. -/
def Apart (family : List (List PendingRecord)) : Prop :=
  family.Pairwise fun a b => ∀ w ∈ a, ∀ w' ∈ b, w.handle ≠ w'.handle

theorem Apart.perm (apart : Apart family) (perm : family.Perm family') : Apart family' :=
  perm.pairwise apart fun hab w hw w' hw' heq => hab w' hw' w hw heq.symm

/-- The last write to an object is the last one of the only list that writes it. -/
theorem Apart.lastWrite_flatten (apart : Apart family) :
    lastWrite handle family.flatten = some w ↔ ∃ writes ∈ family, lastWrite handle writes = some w := by
  induction family with
  | nil => simp [lastWrite]
  | cons writes later ih =>
    obtain ⟨hfirst, hlater⟩ := List.pairwise_cons.mp apart
    rw [List.flatten_cons, lastWrite_append, List.exists_mem_cons_iff, ← ih hlater]
    cases hwritten : lastWrite handle writes with
    | none => simp
    | some w' =>
      have hunwritten : lastWrite handle later.flatten = none := by
        rw [lastWrite_eq_none_iff]
        intro other hother heq
        obtain ⟨ws, hws, hmem⟩ := List.mem_flatten.mp hother
        obtain ⟨hmem', hhandle⟩ := lastWrite_mem hwritten
        exact hfirst ws hws w' hmem' other hmem (hhandle.trans heq.symm)
      rw [hunwritten]
      simp

theorem Apart.lastWrite_perm (apart : Apart family) (perm : family.Perm family') (handle : Handle) :
    lastWrite handle family.flatten = lastWrite handle family'.flatten := by
  ext w
  rw [apart.lastWrite_flatten, (apart.perm perm).lastWrite_flatten]
  exact exists_congr fun writes => and_congr_left fun _ => perm.mem_iff

end LastWrite

/-- What several commits leave of an object, its version apart: the last write to it, if there is one. -/
theorem Snapshot.revision_extendAll {s : Snapshot} (ordered : s.tree.root.Ordered)
    (commits : List (List PendingRecord)) (handle : Handle) :
    ((s.extendAll commits).read handle).map Record.revision =
      (lastWrite handle commits.flatten).or ((s.read handle).map Record.revision) := by
  induction commits generalizing s with
  | nil => rfl
  | cons writes later ih =>
    have hordered : (s.extend writes).tree.root.Ordered := HeapTree.ordered_insertAll _ ordered
    rw [extendAll_cons, ih hordered, read_extend ordered, List.flatten_cons, lastWrite_append]
    cases lastWrite handle later.flatten <;> cases lastWrite handle writes <;> rfl

namespace HeapTree

variable {t t' : HeapTree}

/-- Trees with the same objects have the same number of nodes. -/
theorem Sound.length_eq (sound : t.Sound) (sound' : t'.Sound)
    (same : ∀ h, (t.get? h).isSome = (t'.get? h).isSome) : t.length = t'.length := by
  have hmem : ∀ {t : HeapTree}, t.Sound → ∀ h, h ∈ t.root.handles ↔ (t.get? h).isSome = true := by
    intro t sound h
    rw [← not_iff_not, ← Tree.find_eq_none_iff sound.ordered, get?, Option.isSome_map,
      Option.not_isSome_iff_eq_none]
    rfl
  rw [sound.length_eq_card, sound'.length_eq_card]
  congr 1
  ext h
  rw [List.mem_toFinset, List.mem_toFinset, hmem sound, hmem sound', same]

end HeapTree

namespace Heap

variable {start : Snapshot} {writes : List PendingRecord} {family later : List (List PendingRecord)}
  {h : Heap}

/-- A commit that starts at a given snapshot. -/
def Rival.startingAt (start : Snapshot) (writes : List PendingRecord) : Rival :=
  { start := some start, writes }

/-- What some calls are answered, one after another. -/
def answers : List Rival → Heap → List (Except Error Version)
  | [], _ => []
  | call :: later, h => (call.run h).1 :: answers later (call.run h).2

/-- Commits that have nothing to do with each other and have missed nothing: each writes something, no two
write the same object, and what was there at the start has not changed. -/
structure Independent (start current : Snapshot) (family : List (List PendingRecord)) : Prop where
  nonempty : ∀ writes ∈ family, writes ≠ []
  apart : Apart family
  unchanged : ∀ writes ∈ family, ∀ w ∈ writes, Unchanged start current w

theorem Independent.perm {current : Snapshot} {family' : List (List PendingRecord)}
    (independent : Independent start current family) (perm : family.Perm family') :
    Independent start current family' where
  nonempty writes hmem := independent.nonempty writes (perm.mem_iff.mpr hmem)
  apart := independent.apart.perm perm
  unchanged writes hmem := independent.unchanged writes (perm.mem_iff.mpr hmem)

/-- One of them changes nothing for the others. -/
theorem Independent.extend {current : Snapshot} (ordered : current.tree.root.Ordered)
    (independent : Independent start current (writes :: later)) :
    Independent start (current.extend writes) later := by
  obtain ⟨hfirst, hlater⟩ := List.pairwise_cons.mp independent.apart
  refine ⟨fun ws hws => independent.nonempty ws (List.mem_cons_of_mem _ hws), hlater,
    fun ws hws w hw seen hseen => ?_⟩
  have hunwritten : lastWrite w.handle writes = none :=
    lastWrite_eq_none_iff.mpr fun other hother => hfirst ws hws other hother w hw
  have hnow := independent.unchanged ws (List.mem_cons_of_mem _ hws) w hw seen hseen
  rw [Snapshot.versionOf_eq_stored] at hnow
  rw [Snapshot.versionOf_eq_stored, Snapshot.stored_extend ordered, hunwritten]
  exact hnow

theorem Independent.run_first (independent : Independent start h.head (writes :: later)) :
    (Rival.startingAt start writes).run h = (.ok h.version.next, h.publish writes) := by
  have hcheck : firstConflict start h.head writes = none :=
    firstConflict_eq_none_iff.mpr (independent.unchanged writes List.mem_cons_self)
  have hsome : writes.isEmpty = false := by
    simpa using independent.nonempty writes List.mem_cons_self
  rw [Rival.run, result_commit, Rival.startingAt, hsome, if_neg Bool.false_ne_true, Option.getD_some,
    hcheck]

/-- Each of them gets the next version, and the head has them all. -/
theorem Independent.run_all (independent : Independent start h.head family)
    (ordered : h.head.tree.root.Ordered) :
    answers (family.map (Rival.startingAt start)) h =
        (Version.following h.version family.length).map .ok ∧
      (runAll (family.map (Rival.startingAt start)) h).head = h.head.extendAll family := by
  induction family generalizing h with
  | nil => exact ⟨rfl, rfl⟩
  | cons writes later ih =>
    obtain ⟨hanswers, hhead⟩ := ih (h := h.publish writes) (independent.extend ordered)
      (HeapTree.ordered_insertAll _ ordered)
    have hrun := independent.run_first
    constructor
    · rw [List.map_cons, answers, hrun, hanswers]
      rfl
    · have hstep : runAll ((writes :: later).map (Rival.startingAt start)) h =
          runAll (later.map (Rival.startingAt start)) ((Rival.startingAt start writes).run h).2 := rfl
      rw [hstep, hrun, hhead]
      rfl

/-- Commits that have nothing to do with each other go through in every order, each with the next version,
and in the end the order shows in nothing but the versions: the same objects are there, as many, and of
the same types and with the same fields. -/
theorem disjoint_commits_commute (built : Snapshot.Built (fun _ => True) h.head)
    (independent : Independent start h.head family) :
    (∀ order : List (List PendingRecord), order.Perm family →
      answers (order.map (Rival.startingAt start)) h =
        (Version.following h.version family.length).map .ok) ∧
    (h.version.toNat + family.length < 2 ^ 64 →
      (Version.following h.version family.length).map UInt64.toNat =
        List.range' (h.version.toNat + 1) family.length) ∧
    ∀ order order' : List (List PendingRecord), order.Perm family → order'.Perm family →
      let s := (runAll (order.map (Rival.startingAt start)) h).head
      let s' := (runAll (order'.map (Rival.startingAt start)) h).head
      (∀ handle, (s.read handle).map Record.revision = (s'.read handle).map Record.revision) ∧
        s.count = s'.count := by
  refine ⟨fun order perm => ?_, Version.toNat_following, fun order order' perm perm' => ?_⟩
  · rw [((independent.perm perm.symm).run_all built.ordered).1, perm.length_eq]
  · rw [((independent.perm perm.symm).run_all built.ordered).2,
      ((independent.perm perm'.symm).run_all built.ordered).2]
    have hsame : ∀ handle, ((h.head.extendAll order).read handle).map Record.revision =
        ((h.head.extendAll order').read handle).map Record.revision := fun handle => by
      rw [Snapshot.revision_extendAll built.ordered, Snapshot.revision_extendAll built.ordered,
        (independent.perm perm.symm).apart.lastWrite_perm (perm.trans perm'.symm)]
    have hsound : ∀ commits, (h.head.extendAll commits).tree.Sound := fun commits =>
      (built.extendAll fun _ _ _ _ => trivial).sound
    refine ⟨hsame, (hsound order).length_eq (hsound order') fun handle => ?_⟩
    have hpresent := congrArg Option.isSome (hsame handle)
    rwa [Option.isSome_map, Option.isSome_map] at hpresent

end Heap

end

namespace Heap

/-- Commits that change one old object each, and one that makes a new object and writes it twice. -/
def unrelated : List (List PendingRecord) :=
  [[pendingCounter 1 11], [pendingCounter 4 40, pendingCounter 4 41], [pendingCounter 2 21]]

/-- All of them start before a third counter has been made. The other way round the new object has the
same value, by another commit. -/
theorem disjoint_commits_commute_sample :
    let h := twoCounters.publish [pendingCounter 3 30]
    let calls := unrelated.map (Rival.startingAt twoCounters.head)
    let turned := (unrelated.rotate 1).map (Rival.startingAt twoCounters.head)
    Independent twoCounters.head h.head unrelated ∧ answers turned h = [.ok 4, .ok 5, .ok 6] ∧
      (∀ handle, ((runAll calls h).head.read handle).map Record.revision =
        ((runAll turned h).head.read handle).map Record.revision) ∧
      (runAll calls h).head.count = (runAll turned h).head.count ∧
      (runAll calls h).head.versionOf ⟨4⟩ = some 5 ∧ (runAll turned h).head.versionOf ⟨4⟩ = some 4 := by
  intro h calls turned
  have built : Snapshot.Built (fun _ => True) h.head :=
    (((Snapshot.Built.genesis 0).extend fun _ _ => trivial).extend fun _ _ => trivial).extend
      fun _ _ => trivial
  have independent : Independent twoCounters.head h.head unrelated := by
    refine ⟨by decide, ?_, fun writes hmem => firstConflict_eq_none_iff.mp ?_⟩
    · unfold Apart
      decide +kernel
    · revert writes
      decide +kernel
  obtain ⟨hanswers, -, hsame⟩ := disjoint_commits_commute built independent
  have hturned : (unrelated.rotate 1).Perm unrelated := by decide +kernel
  obtain ⟨hrevisions, hcount⟩ := hsame unrelated (unrelated.rotate 1) (.refl _) hturned
  refine ⟨independent, (hanswers _ hturned).trans ?_, hrevisions, hcount, ?_, ?_⟩
  all_goals decide +kernel

end Heap

end TransactionalHeap
