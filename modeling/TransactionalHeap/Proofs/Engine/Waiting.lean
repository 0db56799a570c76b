import TransactionalHeap.Proofs.Engine.SerialReplay
import TransactionalHeap.Proofs.Listeners.Registering

/-!
# Who waits in a session

A transaction that waits is registered with the listeners where its latch is filed, and a commit
between its halves has the announcement of its writes before it. In every session whose versions do
not wrap, the listeners serve exactly these registrations (`Session.Attended`).
-/
namespace TransactionalHeap

variable [Transactables]

namespace Session

variable {good : Object → Prop} {s s' : Session} {id : TxnId} {t : Transaction} {p : Parked}

/-- The transaction waits, or it is about to. -/
def Waits (s : Session) (id : TxnId) (p : Parked) : Prop :=
  s.calls.find? id = some (.parked p) ∨ s.calls.find? id = some (.suspended p)

theorem Waits.unique {q : Parked} (waits : s.Waits id p) (waits' : s.Waits id q) : p = q := by
  rcases waits with hp | hp <;> rcases waits' with hq | hq <;> rw [hp] at hq <;> cases hq <;> rfl

/-- Who waits with a latch, as a registration. -/
def waiting (s : Session) (latch : LatchId) (r : Registration) : Prop :=
  ∃ id p, s.Waits id p ∧ p.latch = latch ∧ r.Stands p.filed p.start

/-- A commit between its halves has written the object. -/
def unannounced (s : Session) (h : Handle) (v : Version) : Prop :=
  ∃ id p, s.calls.find? id = some (.committing p) ∧ h ∈ p.handles ∧ v = p.version

/-- The listeners serve everybody who waits, each of them with a latch of their own. -/
structure Attended (s : Session) : Prop where
  serves : s.engine.store.listeners.Serves s.engine.store.heap.head
    (· < s.engine.store.nextLatch) s.waiting s.unannounced
  alone : ∀ id id' p p', s.Waits id p → s.Waits id' p' → p.latch = p'.latch → id = id'
  room : ∀ id p, s.Waits id p → p.start.toNat + 1 < 2 ^ 64

namespace Attended

/-- Everybody who waits is registered. -/
theorem registered (attended : s.Attended) (waits : s.Waits id p) :
    ∃ r : Registration, r.Stands p.filed p.start ∧ s.waiting p.latch r := by
  have hstands : Registration.Stands ⟨p.filed, p.start, p.filed, true, attended.room id p waits,
    fun _ h => h, fun _ => rfl⟩ p.filed p.start := ⟨rfl, rfl, rfl, rfl⟩
  exact ⟨_, hstands, id, p, waits, rfl, hstands⟩

theorem latch_lt (attended : s.Attended) (waits : s.Waits id p) :
    p.latch < s.engine.store.nextLatch := by
  obtain ⟨r, -, hr⟩ := attended.registered waits
  exact attended.serves.regs_used p.latch r hr

/-- Whoever waits still has their own latch. -/
theorem of_fewer (attended : s.Attended) (waits : ∀ id p, s'.Waits id p → s.Waits id p)
    (serves : s'.engine.store.listeners.Serves s'.engine.store.heap.head
      (· < s'.engine.store.nextLatch) s'.waiting s'.unannounced) : s'.Attended where
  serves := serves
  alone id id' p p' hp hp' := attended.alone id id' p p' (waits id p hp) (waits id' p' hp')
  room id p hp := attended.room id p (waits id p hp)

theorem congr (attended : s.Attended)
    (listeners : s'.engine.store.listeners = s.engine.store.listeners)
    (head : s'.engine.store.heap.head = s.engine.store.heap.head)
    (nextLatch : s'.engine.store.nextLatch = s.engine.store.nextLatch)
    (waits : ∀ id p, s'.Waits id p ↔ s.Waits id p)
    (committing : ∀ id p, s'.calls.find? id = some (.committing p) ↔
      s.calls.find? id = some (.committing p)) : s'.Attended := by
  have hwaiting : s'.waiting = s.waiting := by
    funext latch r
    simp only [waiting, waits]
  have hunannounced : s'.unannounced = s.unannounced := by
    funext h v
    simp only [unannounced, committing]
  refine attended.of_fewer (fun id p => (waits id p).mp) ?_
  rw [listeners, head, nextLatch, hwaiting, hunannounced]
  exact attended.serves

/-- A transaction ends outside of calls, which is no concern of the listeners. -/
theorem endWith (attended : s.Attended) {store : Store} {marked : Transaction}
    {status : TransactionStatus} (listeners : store.listeners = s.engine.store.listeners)
    (head : store.heap.head = s.engine.store.heap.head)
    (nextLatch : store.nextLatch = s.engine.store.nextLatch) :
    Attended { s with engine := s.engine.endWith id store marked status } :=
  attended.congr ((Store.listeners_released _ _).trans listeners)
    ((congrArg Heap.head (Store.heap_released _ _)).trans head)
    ((Store.nextLatch_released _ _).trans nextLatch) (fun _ _ => Iff.rfl) fun _ _ => Iff.rfl

end Attended

/-! ## Who waits after a call has changed -/

section Calls

/-- The calls of others stay. -/
theorem find?_insert_call {call : InCall} (free : s.calls.find? id = none) {other : TxnId}
    {found : InCall} : (s.calls.insert id call).find? other = some found ↔
      other = id ∧ found = call ∨ s.calls.find? other = some found := by
  by_cases hsame : other = id
  · subst hsame
    simp [free, eq_comm]
  · simp [SortedMap.find?_insert_of_ne _ _ hsame, hsame]

theorem waits_published (free : s.calls.find? id = none) {p : Publication}
    (calls : s'.calls = s.calls.insert id (.committing p)) (other : TxnId) (q : Parked) :
    s'.Waits other q ↔ s.Waits other q := by
  simp only [Waits, calls, find?_insert_call free]
  simp

theorem unannounced_published (free : s.calls.find? id = none) {p : Publication}
    (calls : s'.calls = s.calls.insert id (.committing p)) (h : Handle) (v : Version) :
    s'.unannounced h v ↔ s.unannounced h v ∨ v = p.version ∧ h ∈ p.handles := by
  simp only [unannounced, calls, find?_insert_call free]
  constructor
  · rintro ⟨other, q, ⟨rfl, hq⟩ | hq, hmem, rfl⟩
    · cases hq
      exact .inr ⟨rfl, hmem⟩
    · exact .inl ⟨other, q, hq, hmem, rfl⟩
  · rintro (⟨other, q, hq, hmem, rfl⟩ | ⟨rfl, hmem⟩)
    · exact ⟨other, q, .inr hq, hmem, rfl⟩
    · exact ⟨id, p, .inl ⟨rfl, rfl⟩, hmem, rfl⟩

theorem waits_concluded {p : Publication} (calling : s.calls.find? id = some (.committing p))
    (calls : s'.calls = s.calls.erase id) (other : TxnId) (q : Parked) :
    s'.Waits other q ↔ s.Waits other q := by
  by_cases hsame : other = id
  · subst hsame
    simp [Waits, calls, SortedMap.find?_erase_self, calling]
  · simp [Waits, calls, SortedMap.find?_erase_of_ne _ hsame]

/-- What is left to announce was so before. -/
theorem unannounced_of_concluded (calls : s'.calls = s.calls.erase id) {h : Handle} {v : Version}
    (left : s'.unannounced h v) : s.unannounced h v := by
  obtain ⟨other, q, hq, hmem, rfl⟩ := left
  rw [calls] at hq
  exact ⟨other, q, (SortedMap.find?_of_erase hq).2, hmem, rfl⟩

/-- What was to be announced still is, unless it is the commit that is over. -/
theorem unannounced_or_concluded {p : Publication}
    (calling : s.calls.find? id = some (.committing p)) (calls : s'.calls = s.calls.erase id)
    {h : Handle} {v : Version} (before : s.unannounced h v) :
    s'.unannounced h v ∨ h ∈ p.handles ∧ v ≤ p.version := by
  obtain ⟨other, q, hq, hmem, rfl⟩ := before
  by_cases hsame : other = id
  · subst hsame
    rw [calling] at hq
    cases hq
    exact .inr ⟨hmem, UInt64.le_refl _⟩
  · refine .inl ⟨other, q, ?_, hmem, rfl⟩
    rwa [calls, SortedMap.find?_erase_of_ne _ hsame]

theorem waits_parked (free : s.calls.find? id = none)
    (calls : s'.calls = s.calls.insert id (.parked p)) (other : TxnId) (q : Parked) :
    s'.Waits other q ↔ other = id ∧ q = p ∨ s.Waits other q := by
  simp only [Waits, calls, find?_insert_call free, InCall.parked.injEq, reduceCtorEq, and_false,
    false_or, or_assoc]

theorem unannounced_parked (free : s.calls.find? id = none)
    (calls : s'.calls = s.calls.insert id (.parked p)) : s'.unannounced = s.unannounced := by
  funext h v
  simp only [unannounced, calls, find?_insert_call free, reduceCtorEq, and_false, false_or]

/-- Who was about to wait waits now, with the same latch, and everybody else as before. -/
theorem waits_suspended (calling : s.calls.find? id = some (.parked p)) (other : TxnId) (q : Parked)
    (calls : s'.calls = s.calls.insert id (.suspended p)) : s'.Waits other q ↔ s.Waits other q := by
  by_cases hsame : other = id
  · subst hsame
    simp [Waits, calls, calling]
  · simp [Waits, calls, SortedMap.find?_insert_of_ne _ _ hsame]

theorem waits_woken (calls : s'.calls = s.calls.erase id) (other : TxnId) (q : Parked) :
    s'.Waits other q ↔ other ≠ id ∧ s.Waits other q := by
  by_cases hsame : other = id
  · subst hsame
    simp [Waits, calls, SortedMap.find?_erase_self]
  · simp [Waits, calls, SortedMap.find?_erase_of_ne _ hsame, hsame]

theorem unannounced_woken (waits : s.Waits id p) (calls : s'.calls = s.calls.erase id) :
    s'.unannounced = s.unannounced := by
  have hidle : ∀ q, s.calls.find? id ≠ some (.committing q) := fun q hq => by
    rcases waits with hcall | hcall <;> rw [hcall] at hq <;> cases hq
  funext h v
  simp only [unannounced, calls, committing_erase hidle]

end Calls

/-! ## Serving through every action -/

theorem Attended.published (attended : s.Attended) {ok : PendingRecord → Prop}
    (built : s.engine.store.heap.head.Built ok)
    (room : s.engine.store.heap.head.base.toNat + s.engine.store.heap.head.depth + 1 < 2 ^ 64)
    (free : s.calls.find? id = none) {writes : List PendingRecord} {p : Publication}
    (version : p.version = s.engine.store.heap.head.version.next)
    (handles : p.handles = writes.map PendingRecord.handle)
    (listeners : s'.engine.store.listeners = s.engine.store.listeners)
    (head : s'.engine.store.heap.head = s.engine.store.heap.head.extend writes)
    (nextLatch : s'.engine.store.nextLatch = s.engine.store.nextLatch)
    (calls : s'.calls = s.calls.insert id (.committing p)) : s'.Attended := by
  have hwaits := waits_published free calls
  have hwaiting : ∀ latch r, s'.waiting latch r ↔ s.waiting latch r := fun latch r => by
    simp only [waiting, hwaits]
  have hunannounced : ∀ h v, s'.unannounced h v ↔ s.unannounced h v ∨
      v = s.engine.store.heap.head.version.next ∧ ∃ w ∈ writes, w.handle = h := fun h v => by
    rw [unannounced_published free calls, version, handles, List.mem_map]
  refine attended.of_fewer (fun other q => (hwaits other q).mp) ?_
  rw [listeners, head, nextLatch]
  exact (attended.serves.commit built room writes hunannounced).congr (fun _ hused => hused) hwaiting

/-- The objects that a transaction would wait for are in the head. -/
theorem stored_of_readSet (sound : s.core.Sound good) (held : s.engine.held.find? id = some t) :
    ∀ h ∈ t.readSet, ∃ v, s.engine.store.heap.head.versionOf h = some v := by
  intro h hmem
  have hbelongs := sound.held id t held
  have hpast : t.snapshot ∈ s.engine.store.heap.head.chain := hbelongs.past
  have hbuilt : s.engine.store.heap.head.Built _ := sound.built
  obtain ⟨r, hr⟩ := hbelongs.sound.stored_of_mem_readSet hmem
  refine hbuilt.versionOf_mono hpast (v := r.version) ?_
  rw [(hbuilt.of_mem_chain hpast).1.versionOf_eq_read, hr]
  rfl

/-- The objects that a transaction would wait for are in the head, and its start is not ahead of it. -/
theorem parkable (sound : s.core.Sound good) (held : s.engine.held.find? id = some t)
    (room : s.engine.store.heap.head.base.toNat + s.engine.store.heap.head.depth + 1 < 2 ^ 64) :
    (∀ h ∈ t.readSet, ∃ v, s.engine.store.heap.head.versionOf h = some v) ∧
      t.startVersion.toNat + 1 < 2 ^ 64 := by
  have hbelongs := sound.held id t held
  have hpast : t.snapshot ∈ s.engine.store.heap.head.chain := hbelongs.past
  have hbuilt : s.engine.store.heap.head.Built _ := sound.built
  refine ⟨stored_of_readSet sound held, ?_⟩
  have hle := hbuilt.toNat_past_le (by omega) hpast
  exact Nat.lt_of_le_of_lt (Nat.add_le_add_right hle 1) room

/-- A transaction that has read something registers for it. -/
theorem Attended.registers (attended : s.Attended) (sound : s.core.Sound good)
    (held : s.engine.held.find? id = some t) (reads : t.readSet ≠ [])
    (room : s.engine.store.heap.head.base.toNat + s.engine.store.heap.head.depth + 1 < 2 ^ 64) :
    ∃ filed listeners r, Listeners.register s.engine.store.heap.head t.readSet t.startVersion
        s.engine.store.nextLatch s.engine.store.listeners = .ok filed listeners ∧
      s.engine.store.listeners.Leads listeners ∧
      listeners.Registered s.engine.store.heap.head (· < s.engine.store.nextLatch) s.waiting
        s.unannounced s.engine.store.nextLatch t.readSet t.startVersion filed r := by
  obtain ⟨hstored, hstart⟩ := parkable sound held room
  have hbuilt : s.engine.store.heap.head.Built _ := sound.built
  exact attended.serves.registered hbuilt (Nat.lt_of_succ_lt room) (Nat.lt_irrefl _) hstart reads
    hstored

namespace Attended

theorem parked (attended : s.Attended) {handles filed : List Handle} {start : Version}
    {listeners : Listeners} {r : Registration} (free : s.calls.find? id = none)
    (startRoom : start.toNat + 1 < 2 ^ 64)
    (registered : listeners.Registered s.engine.store.heap.head (· < s.engine.store.nextLatch)
      s.waiting s.unannounced s.engine.store.nextLatch handles start filed r)
    (listeners_eq : s'.engine.store.listeners = listeners)
    (head : s'.engine.store.heap.head = s.engine.store.heap.head)
    (nextLatch : s'.engine.store.nextLatch = s.engine.store.nextLatch + 1)
    (calls : s'.calls = s.calls.insert id (.parked ⟨s.engine.store.nextLatch, filed, start⟩)) :
    s'.Attended := by
  have hwaits := waits_parked free calls
  have hwaiting : ∀ latch r', s'.waiting latch r' ↔
      reassign s.waiting s.engine.store.nextLatch r latch r' := by
    intro latch r'
    constructor
    · rintro ⟨other, q, hq, rfl, hstands⟩
      rcases (hwaits other q).mp hq with ⟨rfl, rfl⟩ | hq
      · exact .inl ⟨rfl, hstands.unique registered.stands⟩
      · exact .inr ⟨Nat.ne_of_lt (attended.latch_lt hq), other, q, hq, rfl, hstands⟩
    · rintro (⟨rfl, rfl⟩ | ⟨-, other, q, hq, rfl, hstands⟩)
      · exact ⟨id, _, (hwaits id _).mpr (.inl ⟨rfl, rfl⟩), rfl, registered.stands⟩
      · exact ⟨other, q, (hwaits other q).mpr (.inr hq), rfl, hstands⟩
  have hunannounced := unannounced_parked free calls
  refine ⟨?_, fun other other' q q' hq hq' hsame => ?_, fun other q hq => ?_⟩
  · rw [listeners_eq, head, nextLatch, hunannounced]
    exact registered.serves.congr (fun latch hused => Nat.lt_succ_iff_lt_or_eq.mpr hused.symm)
      hwaiting
  · rcases (hwaits other q).mp hq with ⟨rfl, rfl⟩ | hq <;>
      rcases (hwaits other' q').mp hq' with ⟨rfl, rfl⟩ | hq'
    · rfl
    · exact absurd hsame (Nat.ne_of_gt (attended.latch_lt hq'))
    · exact absurd hsame (Nat.ne_of_lt (attended.latch_lt hq))
    · exact attended.alone other other' q q' hq hq' hsame
  · rcases (hwaits other q).mp hq with ⟨rfl, rfl⟩ | hq
    · exact startRoom
    · exact attended.room other q hq

theorem woken (attended : s.Attended) {ok : PendingRecord → Prop}
    (built : s.engine.store.heap.head.Built ok)
    (room : s.engine.store.heap.head.base.toNat + s.engine.store.heap.head.depth < 2 ^ 64)
    (waits : s.Waits id p)
    (listeners : s'.engine.store.listeners =
      s.engine.store.listeners.deregister p.filed p.start p.latch)
    (head : s'.engine.store.heap.head = s.engine.store.heap.head)
    (nextLatch : s'.engine.store.nextLatch = s.engine.store.nextLatch)
    (calls : s'.calls = s.calls.erase id) : s'.Attended := by
  have hwaits := waits_woken calls
  have hunannounced := unannounced_woken waits calls
  obtain ⟨r, hstands, hr⟩ := attended.registered waits
  have hserves := attended.serves.deregistered built room hr
  rw [hstands.filed, hstands.start] at hserves
  refine attended.of_fewer (fun other q hq => ((hwaits other q).mp hq).2) ?_
  rw [listeners, head, nextLatch, hunannounced]
  refine hserves.congr (fun _ hused => hused) fun latch r' => ⟨?_, ?_⟩
  · rintro ⟨other, q, hq, rfl, hrest⟩
    obtain ⟨hne, hq⟩ := (hwaits other q).mp hq
    exact ⟨fun hsame => hne (attended.alone other id q p hq waits hsame), other, q, hq, rfl, hrest⟩
  · rintro ⟨hne, other, q, hq, rfl, hrest⟩
    refine ⟨other, q, (hwaits other q).mpr ⟨fun hsame => hne ?_, hq⟩, rfl, hrest⟩
    subst hsame
    exact congrArg Parked.latch (Waits.unique hq waits)

theorem concluded (attended : s.Attended) {p : Publication}
    (calling : s.calls.find? id = some (.committing p))
    (listeners : s'.engine.store.listeners =
      s.engine.store.listeners.notify p.handles p.version)
    (head : s'.engine.store.heap.head = s.engine.store.heap.head)
    (nextLatch : s'.engine.store.nextLatch = s.engine.store.nextLatch)
    (calls : s'.calls = s.calls.erase id) : s'.Attended := by
  have hwaits := waits_concluded calling calls
  have hwaiting : s'.waiting = s.waiting := by
    funext latch r
    simp only [waiting, hwaits]
  refine attended.of_fewer (fun other q => (hwaits other q).mp) ?_
  rw [listeners, head, nextLatch, hwaiting]
  refine attended.serves.notify (fun h hmem => ?_)
    (fun h v => unannounced_of_concluded calls) fun h v => unannounced_or_concluded calling calls
  exact attended.serves.pending_le h p.version ⟨id, p, calling, hmem, rfl⟩

end Attended

/-- One action keeps everybody attended, as long as versions do not wrap. -/
theorem Effect.attended {a : Action} {log : Option Committed} (effect : Effect s a log s')
    (sound : s.core.Sound good) (attended : s.Attended)
    (room : s'.engine.store.heap.head.base.toNat + s'.engine.store.heap.head.depth + 1 < 2 ^ 64) :
    s'.Attended := by
  have hbuilt : s.engine.store.heap.head.Built _ := sound.built
  cases effect with
  | nothing mayRefuse => exact attended
  | usedHandle absent => exact attended.congr rfl rfl rfl (fun _ _ => Iff.rfl) fun _ _ => Iff.rfl
  | began which => exact attended.congr rfl rfl rfl (fun _ _ => Iff.rfl) fun _ _ => Iff.rfl
  | dropped held free =>
    exact attended.congr (Store.listeners_released _ _)
      (congrArg Heap.head (Store.heap_released _ _)) (Store.nextLatch_released _ _)
      (fun _ _ => Iff.rfl) fun _ _ => Iff.rfl
  | performed held free => exact attended.congr rfl rfl rfl (fun _ _ => Iff.rfl) fun _ _ => Iff.rfl
  | attached held free => exact attended.congr rfl rfl rfl (fun _ _ => Iff.rfl) fun _ _ => Iff.rfl
  | aborted held free active => exact attended.endWith rfl rfl rfl
  | unchanged ready nothing => exact attended.endWith rfl rfl rfl
  | lockedOut ready something lost => exact attended.endWith rfl rfl rfl
  | conflicted ready something locked lost counted =>
    exact attended.endWith rfl (by rw [counted]; rfl) rfl
  | @published id t guard locks p ready something locked unconflicted which =>
    have hdepth : (s.engine.store.heap.head.extend t.pendingWrites).depth =
        s.engine.store.heap.head.depth + 1 := rfl
    have hroom : s.engine.store.heap.head.base.toNat +
        (s.engine.store.heap.head.depth + 1) + 1 < 2 ^ 64 := room
    exact attended.published hbuilt (by omega) ready.free (by rw [which]) (by rw [which]; rfl) rfl rfl
      rfl rfl
  | concluded held calling =>
    exact attended.concluded calling (Store.listeners_released _ _)
      (congrArg Heap.head (Store.heap_released _ _)) (Store.nextLatch_released _ _) rfl
  | @unparked id t fault listeners held active free reads lost =>
    obtain ⟨filed, listeners', r, hrun, -⟩ := attended.registers sound held reads room
    rw [hrun] at lost
    cases lost
  | @parked id t filed listeners p held active free reads registered which =>
    obtain ⟨filed', listeners', r, hrun, -, hregistered⟩ := attended.registers sound held reads room
    rw [registered] at hrun
    cases hrun
    exact attended.parked free (parkable sound held room).2 hregistered rfl rfl rfl (by rw [which])
  | @suspended id t p held calling =>
    refine attended.congr (Store.listeners_released _ _)
      (congrArg Heap.head (Store.heap_released _ _)) (Store.nextLatch_released _ _)
      (fun other q => waits_suspended calling other q rfl) ?_
    exact committing_insert (fun q hq => by rw [calling] at hq; cases hq) (by simp)
  | @woken id t p held calling =>
    exact attended.woken hbuilt (Nat.lt_of_succ_lt room) (.inr calling) rfl rfl rfl rfl

/-- No action closes a latch, and none makes the listeners forget. -/
theorem Effect.leads {a : Action} {log : Option Committed} (effect : Effect s a log s')
    (sound : s.core.Sound good) (attended : s.Attended)
    (room : s'.engine.store.heap.head.base.toNat + s'.engine.store.heap.head.depth + 1 < 2 ^ 64) :
    s.engine.store.listeners.Leads s'.engine.store.listeners := by
  have hsame : s'.engine.store.listeners = s.engine.store.listeners →
      s.engine.store.listeners.Leads s'.engine.store.listeners := fun hsame => by
    rw [hsame]
    exact .refl _
  cases effect with
  | nothing | usedHandle | began | performed | attached | published => exact hsame rfl
  | dropped | aborted | unchanged | lockedOut | conflicted | suspended =>
    exact hsame (Store.listeners_released _ _)
  | @concluded id t p held calling =>
    have hlisteners : (s.engine.endWith id (s.engine.store.conclude id p)
        (t.markAll .committed p.handles) (.committed p.version)).store.listeners =
        s.engine.store.listeners.notify p.handles p.version := Store.listeners_released _ _
    rw [hlisteners]
    exact attended.serves.waiting.leads_notify p.handles p.version
  | @unparked id t fault listeners held active free reads lost =>
    obtain ⟨filed, listeners', r, hrun, -⟩ := attended.registers sound held reads room
    rw [hrun] at lost
    cases lost
  | @parked id t filed listeners p held active free reads registered which =>
    obtain ⟨filed', listeners', r, hrun, hleads, -⟩ := attended.registers sound held reads room
    rw [registered] at hrun
    cases hrun
    exact hleads
  | @woken id t p held calling => exact Listeners.leads_deregister _ _ _ _

/-! ## Runs -/

theorem attended_ofConfig (config : Config) : (ofConfig config).Attended where
  serves := .empty _ _
    (fun latch r ⟨id, p, hp, _⟩ => by rcases hp with hp | hp <;> cases hp)
    (fun h v ⟨id, p, hp, _⟩ => by cases hp)
  alone id id' p p' hp := by rcases hp with hp | hp <;> cases hp
  room id p hp := by rcases hp with hp | hp <;> cases hp

/-- A run goes on from the first snapshot and forgets no commit. -/
theorem extent_run {s : Session} (actions : List Action) (within : ∀ a ∈ actions, a.Within good)
    (sound : s.core.Sound good) :
    (s.run actions).engine.store.heap.head.base = s.engine.store.heap.head.base ∧
    (s.run actions).engine.store.heap.head.depth =
      s.engine.store.heap.head.depth + (commits actions s).length := by
  obtain ⟨-, hhead⟩ := commits_follow within sound
  simp only [core] at hhead
  rw [hhead, Snapshot.base_extendAll, Snapshot.depth_extendAll, List.length_map]
  exact ⟨rfl, rfl⟩

theorem attended_run {s : Session} (actions : List Action) (within : ∀ a ∈ actions, a.Within good)
    (sound : s.core.Sound good) (attended : s.Attended)
    (room : (s.run actions).engine.store.heap.head.base.toNat +
      (s.run actions).engine.store.heap.head.depth + 1 < 2 ^ 64) :
    (s.run actions).Attended ∧
      s.engine.store.listeners.Leads (s.run actions).engine.store.listeners := by
  induction actions generalizing s with
  | nil => exact ⟨attended, .refl _⟩
  | cons a later ih =>
    have hwithin : ∀ b ∈ later, b.Within good := fun b hb => within b (List.mem_cons_of_mem _ hb)
    have hsound := sound_step (within a List.mem_cons_self) sound
    obtain ⟨hbase, hdepth⟩ := extent_run later hwithin hsound
    have hroom : (s.step a).engine.store.heap.head.base.toNat +
        (s.step a).engine.store.heap.head.depth + 1 < 2 ^ 64 := by
      change ((s.step a).run later).engine.store.heap.head.base.toNat +
        ((s.step a).run later).engine.store.heap.head.depth + 1 < 2 ^ 64 at room
      rw [hbase, hdepth] at room
      omega
    have heffect := effect sound a
    obtain ⟨hattended, hleads⟩ := ih hwithin hsound (heffect.attended sound attended hroom) room
    exact ⟨hattended, (heffect.leads sound attended hroom).trans hleads⟩

end Session

end TransactionalHeap
