import Mathlib.Data.List.Induction
import TransactionalHeap.Object.Stock
import TransactionalHeap.Proofs.Engine.Retrying
import TransactionalHeap.Proofs.Listeners.Keeping

/-!
# No latch outlives its wait

A retry files one latch with many objects, is woken through one of them, and has to be withdrawn from
all the others, while commits sweep some of the buckets and others share them. In every session just
the latches of those who wait are filed (`Session.Tidy`), so nothing is left once nobody waits
(`Session.latches_are_of_waiters`).
-/
namespace TransactionalHeap

section

variable [Transactables]

namespace Session

variable {good : Object → Prop} {s s' : Session} {id : TxnId} {t : Transaction} {p : Parked}

/-- The listeners keep the latches of those who wait and know the heap, and each latch is waited with
once. -/
structure Tidy (s : Session) : Prop where
  keeps : s.engine.store.listeners.Keeps (· < s.engine.store.nextLatch) fun p => ∃ id, s.Waits id p
  knows : s.engine.store.listeners.Knows s.engine.store.heap.head s.unannounced
  alone : ∀ id id' p p', s.Waits id p → s.Waits id' p' → p.latch = p'.latch → id = id'

namespace Tidy

/-- Whoever waits with a latch waits in one way. -/
theorem unique (tidy : s.Tidy) (waits : s.Waits id p) (q : Parked)
    (hq : ∃ id, s.Waits id q) (same : q.latch = p.latch) : q = p := by
  obtain ⟨other, hq⟩ := hq
  obtain rfl := tidy.alone other id q p hq waits same
  exact hq.unique waits

theorem congr (tidy : s.Tidy) (listeners : s'.engine.store.listeners = s.engine.store.listeners)
    (head : s'.engine.store.heap.head = s.engine.store.heap.head)
    (nextLatch : s'.engine.store.nextLatch = s.engine.store.nextLatch)
    (waits : ∀ id p, s'.Waits id p ↔ s.Waits id p)
    (committing : ∀ id p, s'.calls.find? id = some (.committing p) ↔
      s.calls.find? id = some (.committing p)) : s'.Tidy where
  keeps := by
    rw [listeners, nextLatch]
    exact tidy.keeps.congr (fun _ hused => hused) fun p => exists_congr fun id => waits id p
  knows := by
    rw [listeners, head, show s'.unannounced = s.unannounced by
      funext h v
      simp only [unannounced, committing]]
    exact tidy.knows
  alone id id' p p' hp hp' := tidy.alone id id' p p' ((waits id p).mp hp) ((waits id' p').mp hp')

/-- A transaction ends outside of calls, which is no concern of the listeners. -/
theorem endWith (tidy : s.Tidy) {store : Store} {marked : Transaction} {status : TransactionStatus}
    (listeners : store.listeners = s.engine.store.listeners)
    (head : store.heap.head = s.engine.store.heap.head)
    (nextLatch : store.nextLatch = s.engine.store.nextLatch) :
    Tidy { s with engine := s.engine.endWith id store marked status } :=
  tidy.congr ((Store.listeners_released _ _).trans listeners)
    ((congrArg Heap.head (Store.heap_released _ _)).trans head)
    ((Store.nextLatch_released _ _).trans nextLatch) (fun _ _ => Iff.rfl) fun _ _ => Iff.rfl

theorem published (tidy : s.Tidy) {ok : PendingRecord → Prop}
    (built : s.engine.store.heap.head.Built ok) (free : s.calls.find? id = none)
    {writes : List PendingRecord} {p : Publication}
    (version : p.version = s.engine.store.heap.head.version.next)
    (handles : p.handles = writes.map PendingRecord.handle)
    (listeners : s'.engine.store.listeners = s.engine.store.listeners)
    (head : s'.engine.store.heap.head = s.engine.store.heap.head.extend writes)
    (nextLatch : s'.engine.store.nextLatch = s.engine.store.nextLatch)
    (calls : s'.calls = s.calls.insert id (.committing p)) : s'.Tidy where
  keeps := by
    rw [listeners, nextLatch]
    exact tidy.keeps.congr (fun _ hused => hused) fun q => exists_congr fun other =>
      waits_published free calls other q
  knows := by
    rw [listeners, head]
    intro h active hactive
    rw [Snapshot.written_extend built.ordered]
    split
    · next hwritten =>
      refine .inr ((unannounced_published free calls _ _).mpr (.inr ⟨version.symm, ?_⟩))
      rw [handles]
      exact List.mem_map.mpr hwritten
    · refine (tidy.knows h active hactive).imp_right fun hpending => ?_
      exact (unannounced_published free calls _ _).mpr (.inl hpending)
  alone other other' q q' hq hq' := tidy.alone other other' q q'
    ((waits_published free calls other q).mp hq) ((waits_published free calls other' q').mp hq')

theorem concluded (tidy : s.Tidy) {p : Publication}
    (calling : s.calls.find? id = some (.committing p))
    (listeners : s'.engine.store.listeners = s.engine.store.listeners.notify p.handles p.version)
    (head : s'.engine.store.heap.head = s.engine.store.heap.head)
    (nextLatch : s'.engine.store.nextLatch = s.engine.store.nextLatch)
    (calls : s'.calls = s.calls.erase id) : s'.Tidy where
  keeps := by
    rw [listeners, nextLatch]
    exact (tidy.keeps.notify p.handles p.version).congr (fun _ hused => hused) fun q =>
      exists_congr fun other => waits_concluded calling calls other q
  knows := by
    rw [listeners, head]
    exact tidy.knows.notify tidy.keeps.waiting fun h v => unannounced_or_concluded calling calls
  alone other other' q q' hq hq' := tidy.alone other other' q q'
    ((waits_concluded calling calls other q).mp hq) ((waits_concluded calling calls other' q').mp hq')

theorem parked (tidy : s.Tidy) {wanted : List Handle} {listeners : Listeners}
    (free : s.calls.find? id = none)
    (admits : s.engine.store.listeners.Admits listeners s.engine.store.heap.head
      (fun other => other = s.engine.store.nextLatch ∨ other < s.engine.store.nextLatch)
      (fun q => ∃ other, s.Waits other q) s.unannounced p wanted)
    (latch : p.latch = s.engine.store.nextLatch)
    (listeners_eq : s'.engine.store.listeners = listeners)
    (head : s'.engine.store.heap.head = s.engine.store.heap.head)
    (nextLatch : s'.engine.store.nextLatch = s.engine.store.nextLatch + 1)
    (calls : s'.calls = s.calls.insert id (.parked p)) : s'.Tidy where
  keeps := by
    rw [listeners_eq, nextLatch]
    refine admits.keeps.congr (fun _ hused => Nat.lt_succ_iff_lt_or_eq.mpr hused.symm) fun q => ?_
    simp only [waits_parked free calls, exists_or, exists_eq_left]
  knows := by
    rw [listeners_eq, head, unannounced_parked free calls]
    exact admits.knows
  alone other other' q q' hq hq' hsame := by
    have hold : ∀ other q, s.Waits other q → q.latch < p.latch := fun other q hq =>
      latch ▸ tidy.keeps.waits_used q ⟨other, hq⟩
    rcases (waits_parked free calls other q).mp hq with ⟨rfl, rfl⟩ | hq <;>
      rcases (waits_parked free calls other' q').mp hq' with ⟨rfl, rfl⟩ | hq'
    · rfl
    · exact absurd hsame (Nat.ne_of_gt (hold other' q' hq'))
    · exact absurd hsame (Nat.ne_of_lt (hold other q hq))
    · exact tidy.alone other other' q q' hq hq' hsame

theorem woken (tidy : s.Tidy) (waits : s.Waits id p)
    (listeners : s'.engine.store.listeners =
      s.engine.store.listeners.deregister p.filed p.start p.latch)
    (head : s'.engine.store.heap.head = s.engine.store.heap.head)
    (nextLatch : s'.engine.store.nextLatch = s.engine.store.nextLatch)
    (calls : s'.calls = s.calls.erase id) : s'.Tidy where
  keeps := by
    rw [listeners, nextLatch]
    refine (tidy.keeps.deregister (tidy.unique waits)).congr (fun _ hused => hused) fun q => ?_
    simp only [waits_woken calls]
    constructor
    · rintro ⟨other, hne, hq⟩
      exact ⟨fun hsame => hne (tidy.alone other id q p hq waits hsame), other, hq⟩
    · rintro ⟨hne, other, hq⟩
      refine ⟨other, fun hsame => hne ?_, hq⟩
      subst hsame
      exact congrArg Parked.latch (hq.unique waits)
  knows := by
    rw [listeners, head, unannounced_woken waits calls]
    exact tidy.knows.congr fun h active hactive => by
      rwa [Listeners.activeOf_deregister] at hactive
  alone other other' q q' hq hq' := tidy.alone other other' q q'
    ((waits_woken calls other q).mp hq).2 ((waits_woken calls other' q').mp hq').2

/-- Whoever has read something is admitted by the listeners. -/
theorem admits (tidy : s.Tidy) (sound : s.core.Sound good) (held : s.engine.held.find? id = some t)
    (reads : t.readSet ≠ []) : ∃ filed listeners,
    Listeners.register s.engine.store.heap.head t.readSet t.startVersion s.engine.store.nextLatch
      s.engine.store.listeners = .ok filed listeners ∧
    s.engine.store.listeners.Admits listeners s.engine.store.heap.head
      (fun other => other = s.engine.store.nextLatch ∨ other < s.engine.store.nextLatch)
      (fun q => ∃ other, s.Waits other q) s.unannounced
      ⟨s.engine.store.nextLatch, filed, t.startVersion⟩ t.readSet :=
  tidy.keeps.register (Nat.lt_irrefl _) tidy.knows reads (stored_of_readSet sound held)

end Tidy

/-- One action leaves nothing behind. -/
theorem Effect.tidy {a : Action} {log : Option Committed} (effect : Effect s a log s')
    (sound : s.core.Sound good) (tidy : s.Tidy) : s'.Tidy := by
  have hbuilt : s.engine.store.heap.head.Built _ := sound.built
  cases effect with
  | nothing mayRefuse => exact tidy
  | usedHandle | began | performed | attached =>
    exact tidy.congr rfl rfl rfl (fun _ _ => Iff.rfl) fun _ _ => Iff.rfl
  | dropped held free =>
    exact tidy.congr (Store.listeners_released _ _)
      (congrArg Heap.head (Store.heap_released _ _)) (Store.nextLatch_released _ _)
      (fun _ _ => Iff.rfl) fun _ _ => Iff.rfl
  | aborted | unchanged | lockedOut => exact tidy.endWith rfl rfl rfl
  | conflicted ready something locked lost counted =>
    exact tidy.endWith rfl (by rw [counted]; rfl) rfl
  | @published id t guard locks p ready something locked unconflicted which =>
    exact tidy.published hbuilt ready.free (by rw [which]) (by rw [which]; rfl) rfl rfl rfl rfl
  | concluded held calling =>
    exact tidy.concluded calling (Store.listeners_released _ _)
      (congrArg Heap.head (Store.heap_released _ _)) (Store.nextLatch_released _ _) rfl
  | @unparked id t fault listeners held active free reads lost =>
    obtain ⟨filed, listeners', hrun, -⟩ := tidy.admits sound held reads
    rw [hrun] at lost
    cases lost
  | @parked id t filed listeners p held active free reads registered which =>
    obtain ⟨filed', listeners', hrun, hadmits⟩ := tidy.admits sound held reads
    rw [registered] at hrun
    cases hrun
    exact tidy.parked free hadmits rfl rfl rfl rfl (by rw [which])
  | @suspended id t p held calling =>
    refine tidy.congr (Store.listeners_released _ _)
      (congrArg Heap.head (Store.heap_released _ _)) (Store.nextLatch_released _ _)
      (fun other q => waits_suspended calling other q rfl) ?_
    exact committing_insert (fun q hq => by rw [calling] at hq; cases hq) (by simp)
  | @woken id t p held calling => exact tidy.woken (.inr calling) rfl rfl rfl rfl

theorem tidy_ofConfig (config : Config) : (ofConfig config).Tidy where
  keeps := .empty fun p ⟨id, hp⟩ => by rcases hp with hp | hp <;> cases hp
  knows h active hactive := by cases hactive
  alone id id' p p' hp := by rcases hp with hp | hp <;> cases hp

theorem tidy_run {s : Session} (sound : s.core.Sound fun _ => True) (tidy : s.Tidy)
    (actions : List Action) : (s.run actions).Tidy :=
  kept_run (fun _ _ _ _ effect _ => effect.tidy) (fun a _ => a.within_any) sound tidy

/-! ## How a wait began -/

/-- An active transaction comes to wait. Its latch is filed with the first of what it has read, and with
all of that unless the latch is open at once. -/
structure ComesToWait (s s' : Session) (id : TxnId) (t : Transaction) (p : Parked) : Prop where
  held : s.engine.held.find? id = some t
  active : t.status = .active
  waits : s'.Waits id p
  start : p.start = t.startVersion
  part : p.filed <+: t.readSet
  whole : s'.opened p = false → p.filed = t.readSet

/-- Whoever waits has waited before, or comes to wait now. -/
theorem Effect.waited_or_comes {a : Action} {log : Option Committed} (effect : Effect s a log s')
    (sound : s.core.Sound good) (tidy : s.Tidy) (waits : s'.Waits id p) :
    s.Waits id p ∨ a = .park id ∧ ∃ t, s.ComesToWait s' id t p := by
  cases effect with
  | published ready => exact .inl ((waits_published ready.free rfl id p).mp waits)
  | concluded held calling => exact .inl ((waits_concluded calling rfl id p).mp waits)
  | suspended held calling => exact .inl ((waits_suspended calling id p rfl).mp waits)
  | woken held calling => exact .inl ((waits_woken rfl id p).mp waits).2
  | @parked other t filed listeners q held active free reads registered which =>
    rcases (waits_parked free rfl id p).mp waits with ⟨rfl, rfl⟩ | hbefore
    · obtain ⟨filed', listeners', hrun, hadmits⟩ := tidy.admits sound held reads
      rw [registered] at hrun
      cases hrun
      rw [which] at waits ⊢
      exact .inr ⟨rfl, t, held, active, waits, rfl, hadmits.part, hadmits.whole⟩
    · exact .inl hbefore
  | nothing | usedHandle | began | dropped | performed | attached | aborted | unchanged | lockedOut
  | conflicted | unparked => exact .inl waits

/-- No action closes a latch. -/
theorem Effect.stays_open {a : Action} {log : Option Committed} (effect : Effect s a log s')
    (sound : s.core.Sound good) (tidy : s.Tidy) (opened : s.opened p = true) :
    s'.opened p = true := by
  cases effect with
  | nothing | usedHandle | began | performed | attached | published => exact opened
  | dropped | aborted | unchanged | lockedOut | conflicted | suspended =>
    simp only [Session.opened, Engine.endWith, Store.listeners_released] at opened ⊢
    exact opened
  | @concluded id t q held calling =>
    simp only [Session.opened, Engine.endWith, Store.listeners_released] at opened ⊢
    exact (tidy.keeps.waiting.leads_notify q.handles q.version).opened p.latch opened
  | @unparked id t fault listeners held active free reads lost =>
    obtain ⟨filed, listeners', hrun, -⟩ := tidy.admits sound held reads
    rw [hrun] at lost
    cases lost
  | @parked id t filed listeners q held active free reads registered which =>
    obtain ⟨filed', listeners', hrun, hadmits⟩ := tidy.admits sound held reads
    rw [registered] at hrun
    cases hrun
    exact hadmits.leads.opened p.latch opened
  | woken held calling => exact (Listeners.leads_deregister _ _ _ _).opened p.latch opened

/-- Whoever waits after a run came to wait in it, and the latch is open if it was so then. -/
theorem came_to_wait (config : Config) (actions : List Action)
    (waits : ((ofConfig config).run actions).Waits id p) :
    ∃ before later t, actions = before ++ .park id :: later ∧
      ((ofConfig config).run before).ComesToWait
        (((ofConfig config).run before).step (.park id)) id t p ∧
      ((((ofConfig config).run before).step (.park id)).opened p = true →
        ((ofConfig config).run actions).opened p = true) := by
  induction actions using List.reverseRecOn with
  | nil => rcases waits with hp | hp <;> cases hp
  | append_singleton earlier a ih =>
    have hsound := sound_reached config earlier
    have htidy := tidy_run (sound_ofConfig config) (tidy_ofConfig config) earlier
    have heffect := effect hsound a
    have hlast : (ofConfig config).run (earlier ++ [a]) =
        ((ofConfig config).run earlier).step a := by
      rw [run, List.foldl_append]
      rfl
    rw [hlast] at waits ⊢
    rcases heffect.waited_or_comes hsound htidy waits with hbefore | ⟨rfl, t, hcomes⟩
    · obtain ⟨before, later, t, rfl, hcame, hopened⟩ := ih hbefore
      refine ⟨before, later ++ [a], t, ?_, hcame, fun hopen => ?_⟩
      · rw [List.append_assoc, List.cons_append]
      · exact heffect.stays_open hsound htidy (hopened hopen)
    · exact ⟨earlier, [], t, rfl, hcomes, fun hopen => hopen⟩

/-! ## Nothing is left behind -/

/-- The object has been written after the given version. -/
def Overwritten (s : Session) (h : Handle) (start : Version) : Prop :=
  ∃ v, s.engine.store.heap.head.versionOf h = some v ∧ start < v

theorem overwritten_iff {h : Handle} {start : Version} :
    s.Overwritten h start ↔ start < s.engine.store.heap.head.written h :=
  Snapshot.lt_written_iff.symm

/-- While versions do not wrap, everybody who waits is attended. -/
theorem attended_of_room (config : Config) (actions : List Action)
    (room : config.initialVersion.toNat + (commits actions (ofConfig config)).length + 1 < 2 ^ 64) :
    ((ofConfig config).run actions).Attended := by
  have hwithin : ∀ a ∈ actions, a.Within fun _ => True := fun a _ => a.within_any
  obtain ⟨hbase, hdepth⟩ := extent_run actions hwithin (sound_ofConfig config)
  refine (attended_run actions hwithin (sound_ofConfig config) (attended_ofConfig config) ?_).1
  rw [hbase, hdepth]
  simpa [ofConfig, Engine.ofConfig, Store.ofConfig, Heap.ofVersion, Snapshot.base,
    Snapshot.depth] using room

/-- No latch outlives its wait.

Where nobody waits there is no bucket. Every bucket holds something, and whatever it holds is the latch
of somebody who waits, filed under an object it was to be filed with and under the version after its
start. Whoever waits came to wait in the run, with the objects read until then, all of them unless the
wait is over at once. The latch is filed under those that have not been overwritten since the start, a
commit that is not over yet apart; a latch that is still closed is filed under all that was read.
Conversely it is filed under everything that has not been overwritten, as long as versions do not
wrap. -/
theorem latches_are_of_waiters (config : Config) (actions : List Action) :
    let s := (ofConfig config).run actions
    let ls := s.engine.store.listeners
    ((∀ id p, ¬ s.Waits id p) → ls.bucketCount = 0) ∧
    (∀ h g trigger bucket, ls.groups.find? h = some g → g.buckets.find? trigger = some bucket →
      bucket.latches ≠ [] ∧ ∀ latch ∈ bucket.latches,
        ∃ id p, s.Waits id p ∧ p.latch = latch ∧ trigger = p.start.next ∧ h ∈ p.filed) ∧
    ∀ id p, s.Waits id p → ∃ before later t, actions = before ++ .park id :: later ∧
      ((ofConfig config).run before).ComesToWait
        (((ofConfig config).run before).step (.park id)) id t p ∧
      (∀ h trigger, ls.Filed h trigger p.latch → trigger = p.start.next ∧ h ∈ p.filed ∧
        ((∀ v, ¬ s.unannounced h v) → ¬ s.Overwritten h p.start)) ∧
      (s.opened p = false → ∀ h ∈ t.readSet, ls.Filed h p.start.next p.latch) ∧
      (config.initialVersion.toNat + (commits actions (ofConfig config)).length + 1 < 2 ^ 64 →
        ∀ h ∈ p.filed, ¬ s.Overwritten h p.start → ls.Filed h p.start.next p.latch) := by
  intro s ls
  have htidy : s.Tidy := tidy_run (sound_ofConfig config) (tidy_ofConfig config) actions
  have hkeeps := htidy.keeps
  refine ⟨fun nobody => hkeeps.bucketCount_eq_zero fun p ⟨id, hp⟩ => nobody id p hp,
    fun h g trigger bucket hg hbucket => ⟨hkeeps.occupied h g hg trigger bucket hbucket, ?_⟩,
    fun id p hwaits => ?_⟩
  · intro latch hmem
    obtain ⟨p, ⟨id, hp⟩, hrest⟩ := hkeeps.owned h trigger latch ⟨g, hg, bucket, hbucket, hmem⟩
    exact ⟨id, p, hp, hrest⟩
  obtain ⟨before, later, t, hactions, hcame, hopened⟩ := came_to_wait config actions hwaits
  have hfiled := hkeeps.filed_iff ⟨id, hwaits⟩ (htidy.unique hwaits)
  refine ⟨before, later, t, hactions, hcame, fun h trigger hhere => ?_, fun hclosed h hmem => ?_,
    fun hroom h hmem hcurrent => ?_⟩
  · obtain ⟨htrigger, hmem, active, hactive, hlt⟩ := (hfiled h trigger).mp hhere
    refine ⟨htrigger, hmem, fun hannounced hnewer => ?_⟩
    -- what the listeners know of is not after the start, and they know of all that was announced
    have hknown := (htidy.knows h active hactive).resolve_right (hannounced _)
    exact absurd (UInt64.lt_of_le_of_lt hknown hlt)
      (UInt64.not_lt.mpr (Version.next_le_of_lt (overwritten_iff.mp hnewer)))
  · have hshut : (((ofConfig config).run before).step (.park id)).opened p = false :=
      Bool.eq_false_iff.mpr fun hopen => Bool.eq_false_iff.mp hclosed (hopened hopen)
    rw [← hcame.whole hshut] at hmem
    exact hkeeps.closed p ⟨id, hwaits⟩ hclosed h hmem
  · have hattended := attended_of_room config actions hroom
    obtain ⟨active, hactive, hhere⟩ := hkeeps.placed p ⟨id, hwaits⟩ h hmem
    have hle : active ≤ p.start := by
      refine UInt64.le_trans (hattended.serves.active_le h active hactive) (UInt64.not_lt.mp ?_)
      exact fun hnewer => hcurrent (overwritten_iff.mpr hnewer)
    refine hhere (UInt64.lt_of_le_of_lt hle ?_)
    rw [UInt64.lt_iff_toNat_lt, Version.toNat_next (hattended.room id p hwaits)]
    exact Nat.lt_succ_self _

end Session

end

namespace Session

-- a reader waits for one object until it is written
example :
    let s := (ofConfig {}).run [.begin, .attach 1 (.counter 10), .publish 1, .conclude 1, .begin,
      .perform 2 (.read .counter ⟨1⟩), .park 2, .suspend 2]
    let woken := s.run [.begin, .perform 3 (.write .counter ⟨1⟩), .publish 3, .conclude 3, .wake 2]
    (s.engine.store.listeners.bucketCount, woken.engine.store.listeners.bucketCount) = (1, 0) := by
  decide +kernel

end Session

end TransactionalHeap
