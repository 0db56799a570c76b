import TransactionalHeap.Object.Stock
import TransactionalHeap.Proofs.Engine.Holdings
import TransactionalHeap.Proofs.Program.Calling

/-!
# The registry of live versions

The registry lists the start versions of the transactions that are active and not suspended, each as
often as it occurs (`Session.LiveCounts.versions_perm`). An action changes the registration of one
transaction at most: it registers one that was not registered, or releases one that was, and then the
registry does the same (`Session.Reregisters`).
-/
namespace TransactionalHeap

namespace Liveness

variable {l : Liveness} {v : Version}

/-- The live versions in ascending order, each as often as it is registered. -/
def versions (l : Liveness) : List Version :=
  l.counts.entries.flatMap fun (v, n) => List.replicate n v

/-- Only positive counts are kept. -/
def Positive (l : Liveness) : Prop := ∀ v n, l.counts.find? v = some n → 0 < n

theorem mem_versions : v ∈ l.versions ↔ ∃ n, l.counts.find? v = some n ∧ n ≠ 0 := by
  simp only [versions, List.mem_flatMap, List.mem_replicate, Prod.exists, SortedMap.mem_entries_iff]
  constructor
  · rintro ⟨u, n, hfound, hn, rfl⟩
    exact ⟨n, hfound, hn⟩
  · rintro ⟨n, hfound, hn⟩
    exact ⟨v, n, hfound, hn, rfl⟩

theorem count_versions (l : Liveness) (v : Version) : l.versions.count v = l.count v := by
  have habsent : ∀ {l : Liveness}, l.counts.find? v = none → l.versions.count v = 0 := fun hnone =>
    List.count_eq_zero.mpr fun hmem => by
      obtain ⟨n, hfound, -⟩ := mem_versions.mp hmem
      rw [hnone] at hfound
      cases hfound
  cases hfound : l.counts.find? v with
  | none => rw [habsent hfound, count, hfound, Option.getD_none]
  | some n =>
    let others : Liveness := ⟨l.counts.erase v⟩
    have hperm : l.versions.Perm (List.replicate n v ++ others.versions) :=
      (SortedMap.entries_perm_of_find? hfound).flatMap_right _
    have hothers : others.versions.count v = 0 := habsent (SortedMap.find?_erase_self _ _)
    rw [hperm.count_eq, List.count_append, List.count_replicate_self, hothers, count, hfound]
    rfl

theorem length_versions (l : Liveness) : l.versions.length = l.total := by
  simp only [versions, List.length_flatMap, List.length_replicate]
  rfl

/-- The oldest version is the least of the live ones, in whatever order they are listed. -/
theorem oldest_eq_min? {starts : List Version} (positive : l.Positive)
    (listed : l.versions.Perm starts) : l.oldest = starts.min? := by
  cases hentries : l.counts.entries with
  | nil =>
    have hnone : l.versions = [] := by rw [versions, hentries, List.flatMap_nil]
    rw [hnone, List.nil_perm] at listed
    rw [oldest, SortedMap.keys, hentries, listed]
    rfl
  | cons head later =>
    obtain ⟨v, n⟩ := head
    have holdest : l.oldest = some v := by
      rw [oldest, SortedMap.keys, hentries, List.map_cons, List.head?_cons]
    have hmem : ∀ {u m}, (u, m) ∈ (v, n) :: later ↔ l.counts.find? u = some m := fun {u m} => by
      rw [← hentries, SortedMap.mem_entries_iff]
    have hascending := l.counts.ascending
    rw [hentries] at hascending
    have hfirst := (List.pairwise_cons.mp hascending).1
    rw [holdest, eq_comm, List.min?_eq_some_iff]
    simp only [← listed.mem_iff, mem_versions]
    refine ⟨?_, fun u hu => ?_⟩
    · have hfound := hmem.mp List.mem_cons_self
      exact ⟨n, hfound, Nat.ne_of_gt (positive v n hfound)⟩
    · obtain ⟨m, hfound, -⟩ := hu
      rcases List.mem_cons.mp (hmem.mpr hfound) with hsame | hlater
      · cases hsame
        exact UInt64.le_refl _
      · exact UInt64.le_of_lt (hfirst (u, m) hlater)

theorem Positive.register (positive : l.Positive) (v : Version) : (l.register v).Positive := by
  intro u n hfound
  rcases SortedMap.find?_of_insert hfound with ⟨-, rfl⟩ | ⟨-, hfound⟩
  · exact Nat.succ_pos _
  · exact positive u n hfound

theorem Positive.release (positive : l.Positive) (v : Version) : (l.release v).Positive := by
  intro u n hfound
  unfold Liveness.release at hfound
  split at hfound
  · exact positive u n hfound
  · next m hm =>
    split at hfound
    · exact positive u n (SortedMap.find?_of_erase hfound).2
    · next hmore =>
      rcases SortedMap.find?_of_insert hfound with ⟨-, rfl⟩ | ⟨-, hfound⟩
      · exact Nat.sub_pos_of_lt (Nat.lt_of_not_le hmore)
      · exact positive u n hfound

end Liveness

section

variable [Transactables]

namespace Session

variable {good : Object → Prop} {s s' : Session} {id : TxnId} {t t' : Transaction}

/-- The start versions of the transactions that are active and not suspended. -/
def liveStarts (s : Session) : List Version :=
  s.engine.held.entries.filterMap fun (id, t) => s.liveFor id t

/-- The version that a transaction is registered for. -/
def registered (s : Session) (id : TxnId) : Option Version :=
  (s.engine.held.find? id).bind Transaction.liveVersion

/-- How registry and registrations change together, for one transaction at most. Nobody is registered
twice, and only a transaction that is registered is released, where the registry still counts it. -/
inductive Reregisters (s s' : Session) : Prop
  | stays (registry : s'.engine.store.liveness = s.engine.store.liveness)
      (same : ∀ id, s'.registered id = s.registered id)
  | registers {id : TxnId} {v : Version}
      (registry : s'.engine.store.liveness = s.engine.store.liveness.register v)
      (before : s.registered id = none) (after : s'.registered id = some v)
      (others : ∀ other, other ≠ id → s'.registered other = s.registered other)
  | releases {id : TxnId} {v : Version}
      (registry : s'.engine.store.liveness = s.engine.store.liveness.release v)
      (counted : 0 < s.engine.store.liveness.count v)
      (before : s.registered id = some v) (after : s'.registered id = none)
      (others : ∀ other, other ≠ id → s'.registered other = s.registered other)

theorem registered_of_held (held : s.engine.held.find? id = some t) :
    s.registered id = t.liveVersion := by
  rw [registered, held, Option.bind_some]

theorem registered_insert (held : s'.engine.held = s.engine.held.insert id t') :
    s'.registered id = t'.liveVersion ∧
      ∀ other, other ≠ id → s'.registered other = s.registered other := by
  refine ⟨registered_of_held (by rw [held, SortedMap.find?_insert_self]), fun other hne => ?_⟩
  rw [registered, held, SortedMap.find?_insert_of_ne _ _ hne, registered]

namespace Reregisters

/-- A transaction that is put in place of its former state and stays registered. -/
theorem keep (old : s.engine.held.find? id = some t)
    (held : s'.engine.held = s.engine.held.insert id t') (same : t'.liveVersion = t.liveVersion)
    (registry : s'.engine.store.liveness = s.engine.store.liveness) : s.Reregisters s' := by
  obtain ⟨hafter, hothers⟩ := registered_insert held
  refine .stays registry fun other => ?_
  by_cases hsame : other = id
  · rw [hsame, hafter, same, registered_of_held old]
  · exact hothers other hsame

theorem register {v : Version} (before : s.registered id = none)
    (held : s'.engine.held = s.engine.held.insert id t') (live : t'.liveVersion = some v)
    (registry : s'.engine.store.liveness = s.engine.store.liveness.register v) :
    s.Reregisters s' := by
  obtain ⟨hafter, hothers⟩ := registered_insert held
  exact .registers registry before (hafter.trans live) hothers

end Reregisters

namespace LiveCounts

/-- A transaction that gives its registration up, if it has one. -/
theorem release (counts : s.LiveCounts) (old : s.engine.held.find? id = some t)
    (registry : s'.engine.store.liveness = (s.engine.store.released t.liveVersion).liveness)
    (after : s'.registered id = none)
    (others : ∀ other, other ≠ id → s'.registered other = s.registered other) : s.Reregisters s' := by
  have hbefore := registered_of_held old
  cases hlive : t.liveVersion with
  | none =>
    rw [hlive] at registry hbefore
    refine .stays registry fun other => ?_
    by_cases hsame : other = id
    · rw [hsame, after, hbefore]
    · exact others other hsame
  | some v =>
    have hcount := counts.count_released old v
    rw [if_pos hlive] at hcount
    rw [hlive] at registry hbefore
    exact .releases registry (hcount ▸ Nat.succ_pos _) hbefore after others

/-- A transaction that ends gives its registration up. -/
theorem releaseWith (counts : s.LiveCounts) (old : s.engine.held.find? id = some t)
    {marked : Transaction} (live : marked.liveVersion = t.liveVersion) {store : Store}
    (same : store.liveness = s.engine.store.liveness) (status : TransactionStatus)
    (calls : SortedMap TxnId InCall) :
    s.Reregisters { engine := s.engine.endWith id store marked status, calls } := by
  let ended : Session := { engine := s.engine.endWith id store marked status, calls }
  have hended : ended.engine.held = s.engine.held.insert id (marked.finish status) := rfl
  obtain ⟨hafter, hothers⟩ := registered_insert hended
  refine counts.release old ?_ hafter hothers
  simp only [Engine.endWith, live]
  cases t.liveVersion with
  | none => exact same
  | some v => exact congrArg (Liveness.release · v) same

end LiveCounts

/-- One action registers or releases one transaction at most. -/
theorem Effect.reregisters {a : Action} {log : Option Committed} (effect : Effect s a log s')
    (within : a.Within good) (sound : s.core.Sound good) (counts : s.LiveCounts) :
    s.Reregisters s' := by
  have hmark : ∀ (fault : Error) (t : Transaction),
      (Engine.markConflict fault t.settled).liveVersion = t.liveVersion := fun fault t => by
    rw [Engine.markConflict_rest]
    rfl
  cases effect with
  | nothing mayRefuse => exact .stays rfl fun _ => rfl
  | usedHandle absent => exact .stays rfl fun _ => rfl
  | unparked held active free reads lost => exact .stays rfl fun _ => rfl
  | parked held active free reads registered which => exact .stays rfl fun _ => rfl
  | began which =>
    refine .register ?_ rfl rfl rfl
    rw [Session.registered, next_absent sound, Option.bind_none]
  | @dropped id t held free =>
    refine counts.release held rfl ?_ fun other hne => ?_
    · simp only [Session.registered, SortedMap.find?_erase_self, Option.bind_none]
    · simp only [Session.registered, SortedMap.find?_erase_of_ne _ hne]
  | @performed id op t held free =>
    obtain ⟨hrest, -⟩ := Transaction.performs_soundly within (sound.held id t held).sound
    exact .keep held rfl (by rw [hrest]) rfl
  | @attached id o t held free =>
    have within' : (Op.attachTo ⟨s.engine.nextHandle⟩ o).Within good := within
    obtain ⟨hrest, -⟩ := Transaction.performs_soundly within' (sound.held id t held).sound
    exact .keep held rfl (by rw [hrest]) rfl
  | aborted held free active => exact counts.releaseWith held (by rfl) (by rfl) _ _
  | unchanged ready nothing => exact counts.releaseWith ready.held (by rfl) (by rfl) _ _
  | @lockedOut id t fault locks ready something lost =>
    exact counts.releaseWith ready.held (hmark fault t) (by rfl) _ _
  | @conflicted id t fault guard locks heap ready something locked lost counted =>
    exact counts.releaseWith ready.held (hmark fault t) (by rfl) _ _
  | published ready something locked unconflicted which => exact .keep ready.held rfl rfl rfl
  | @concluded id t p held calling =>
    refine counts.releaseWith held ?_ (by rfl) _ _
    rw [Transaction.markAll_rest]
  | @suspended id t p held calling =>
    refine counts.release held rfl ?_ fun other hne => ?_
    · simp only [Session.registered, SortedMap.find?_insert_self, Option.bind_some]
    · simp only [Session.registered, SortedMap.find?_insert_of_ne _ _ hne]
  | @woken id t p held calling =>
    have active : t.status = .active := (sound.calls_held held calling).active
    refine .register ?_ rfl rfl rfl
    rw [registered_of_held held, counts.live id t held]
    simp only [liveFor, active, calling]

theorem Reregisters.positive (reregisters : s.Reregisters s')
    (positive : s.engine.store.liveness.Positive) : s'.engine.store.liveness.Positive := by
  cases reregisters with
  | stays registry same => rwa [registry]
  | registers registry before after others =>
    rw [registry]
    exact positive.register _
  | releases registry counted before after others =>
    rw [registry]
    exact positive.release _

/-- In a run the registry keeps its counts, and only positive ones. -/
theorem registry_run {actions : List Action} (sound : s.core.Sound fun _ => True)
    (counts : s.LiveCounts) (positive : s.engine.store.liveness.Positive) :
    (s.run actions).LiveCounts ∧ (s.run actions).engine.store.liveness.Positive := by
  refine kept_run (P := fun s => s.LiveCounts ∧ s.engine.store.liveness.Positive)
    (fun s a log s' effect within sound holds => ?_) (fun a _ => a.within_any) sound
    ⟨counts, positive⟩
  obtain ⟨counts, positive⟩ := holds
  exact ⟨effect.liveCounts within sound counts,
    (effect.reregisters within sound counts).positive positive⟩

/-- The registry lists the start versions of the live transactions. -/
theorem LiveCounts.versions_perm (counts : s.LiveCounts) :
    s.engine.store.liveness.versions.Perm s.liveStarts := by
  refine List.perm_iff_count.mpr fun v => ?_
  rw [Liveness.count_versions, counts.counted, liveStarts, List.count_filterMap, liveCount,
    SortedMap.values, List.countP_map]
  refine List.countP_congr fun entry hmem => ?_
  obtain ⟨id, t⟩ := entry
  simp [counts.live id t (SortedMap.mem_entries_iff.mp hmem)]

/-- At any time the registry is that of the transactions which run: their start versions, their number,
the oldest of their versions. Every action registers or releases one of them at most, and atomic calls
are runs of actions. -/
theorem registry_tracks (config : Config) (actions : List Action) :
    let s := (ofConfig config).run actions
    let registry := s.engine.store.liveness
    registry.versions.Perm s.liveStarts ∧ registry.total = s.liveStarts.length ∧
    registry.oldest = s.liveStarts.min? ∧ registry.Positive ∧ (∀ a, s.Reregisters (s.step a)) ∧
    ∀ {ε α : Type} (calls : ε → SortedMap TxnId InCall) (call : Program.Atomic ε α) (fuel : Nat)
      (w left : World ε), w.session calls = s →
      (∀ turn ∈ call.turns fuel w, turn.Fits call calls fun acts => .drop turn.id ∉ acts) →
      Program.EndsIn (Program.atomically call fuel w) left →
      ∃ more, (ofConfig config).run (actions ++ more) = left.session calls := by
  intro s registry
  have hsound : s.core.Sound fun _ => True := sound_reached config actions
  obtain ⟨hcounts, hpositive⟩ : s.LiveCounts ∧ registry.Positive :=
    registry_run (sound_ofConfig config) (liveCounts_ofConfig config) nofun
  have hperm := hcounts.versions_perm
  refine ⟨hperm, ?_, Liveness.oldest_eq_min? hpositive hperm, hpositive, fun a => ?_,
    fun calls call fuel w left here fits ends => ?_⟩
  · rw [← hperm.length_eq, Liveness.length_versions]
  · exact (effect hsound a).reregisters a.within_any hsound hcounts
  · obtain ⟨more, -, hrun⟩ := Program.atomically_reaches here (fun id => Program.allows_all id)
      (by simpa only [true_and] using fits) ends
    exact ⟨more, hrun⟩

end Session

end

namespace Session

/-- After the commit of transaction 1, two transactions run from its version and one from the version
before it. Transaction 5 waits for another commit, and transaction 6 was let go of. -/
def crowded : List Action :=
  [.begin, .attach 1 (.counter 10), .publish 1, .conclude 1, .begin, .begin, .beginAt 0,
    .begin, .perform 5 (.read .counter ⟨1⟩), .park 5, .suspend 5, .begin, .drop 6]

theorem registry_tracks_crowded :
    let registry := ((ofConfig {}).run crowded).engine.store.liveness
    registry.versions.Perm [1, 1, 0] ∧ registry.total = 3 ∧ registry.oldest = some 0 := by
  have hstarts : ((ofConfig {}).run crowded).liveStarts = [1, 1, 0] := by decide +kernel
  obtain ⟨hversions, htotal, holdest, -⟩ := registry_tracks {} crowded
  rw [hstarts] at hversions htotal holdest
  exact ⟨hversions, htotal, holdest.trans (by decide)⟩

end Session

end TransactionalHeap
