import TransactionalHeap.Proofs.Engine.Books

/-!
# What becomes of what was begun

A transaction that has begun, or begun again, is to be settled: it commits, it is aborted, or it goes
into a retry. Until then it runs, and there is one way to get out of it: to be let go of while it is
active. Of any transactions, as many are to be settled as run or were forgotten (`Session.Settles`).
-/
namespace TransactionalHeap

/-! ## Events that begin and events that settle -/

def Event.id : Event → TxnId
  | .began id _ | .committed id _ _ | .aborted id _ | .retried id _ | .conflicted id _ => id

/-- How many more there are to be settled after an event. -/
def Event.opens (event : Event) : Int :=
  match event.kind with
  | .began => 1
  | .committed | .aborted | .retried => -1
  | .conflicted => 0

/-- How many of the given transactions the events have left to be settled. -/
def unsettled (who : TxnId → Bool) : List Event → Int
  | [] => 0
  | event :: later => (if who event.id then event.opens else 0) + unsettled who later

theorem unsettled_append (who : TxnId → Bool) (events new : List Event) :
    unsettled who (events ++ new) = unsettled who events + unsettled who new := by
  induction events with
  | nil => exact (Int.zero_add _).symm
  | cons event later ih => rw [List.cons_append, unsettled, unsettled, ih, Int.add_assoc]

/-- Events of one transaction count for whoever asks about it. -/
theorem unsettled_of_one {who : TxnId → Bool} {id : TxnId} {new : List Event}
    (mine : ∀ event ∈ new, event.id = id) :
    unsettled who new = if who id then unsettled (fun _ => true) new else 0 := by
  induction new with
  | nil => simp [unsettled]
  | cons event later ih =>
    rw [unsettled, unsettled, ih fun event hmem => mine event (List.mem_cons_of_mem _ hmem),
      mine event List.mem_cons_self]
    split <;> rfl

/-- What was started and has neither committed nor been aborted nor gone into a retry. -/
def Statistics.unfinished (n : Statistics) : Int := n.started - n.committed - n.aborted - n.retries

/-- Counted over all transactions, what is to be settled has begun and was not settled. -/
theorem unfinished_tally (events : List Event) :
    (Statistics.tally events).unfinished = unsettled (fun _ => true) events := by
  have hall : unsettled (fun _ => true) events + events.countP (·.kind = .committed) +
      events.countP (·.kind = .aborted) + events.countP (·.kind = .retried) =
        events.countP (·.kind = .began) := by
    induction events with
    | nil => rfl
    | cons event later ih =>
      simp only [unsettled, List.countP_cons, Event.opens]
      cases hkind : event.kind <;> simp <;> omega
  simp only [← Statistics.countOf_tally, Statistics.countOf] at hall
  rw [Statistics.unfinished]
  omega

/-- What some transactions have to settle, and the others. -/
theorem unsettled_split (who : TxnId → Bool) (events : List Event) :
    unsettled who events + unsettled (fun id => !who id) events = unsettled (fun _ => true) events := by
  induction events with
  | nil => rfl
  | cons event later ih =>
    simp only [unsettled]
    by_cases hwho : who event.id = true <;> simp [hwho] <;> omega

/-! ## Running transactions -/

variable [Transactables]

namespace Session

variable {good : Object → Prop} {who : TxnId → Bool} {s s' : Session} {id : TxnId}
  {t t' : Transaction}

/-- A transaction runs while it is active and not in a retry. -/
def isRunning (s : Session) (id : TxnId) (t : Transaction) : Bool :=
  t.isActive && match s.calls.find? id with
    | some (.parked _) | some (.suspended _) => false
    | some (.committing _) | none => true

/-- How many of the given transactions are running. -/
def running (who : TxnId → Bool) (s : Session) : Nat :=
  s.engine.held.entries.countP fun (id, t) => who id && s.isRunning id t

/-- The transaction that an action lets go of while it is active. -/
def forgets (s : Session) : Action → Option TxnId
  | .drop id =>
    if s.calls.contains id then none
    else if (s.engine.held.find? id).any Transaction.isActive then some id else none
  | _ => none

/-- The transactions that a run lets go of while they are active. -/
def forgotten : List Action → Session → List TxnId
  | [], _ => []
  | a :: later, s => (s.forgets a).toList ++ forgotten later (s.step a)

/-- The running ones but for one transaction. -/
theorem running_erase (calls : ∀ other, other ≠ id → s'.calls.find? other = s.calls.find? other) :
    (s.engine.held.erase id).entries.countP (fun (other, t) => who other && s'.isRunning other t) =
      (s.engine.held.erase id).entries.countP fun (other, t) => who other && s.isRunning other t := by
  refine List.countP_congr fun (other, t) hmem => ?_
  have hne := (SortedMap.find?_of_erase (SortedMap.mem_entries_iff.mp hmem)).1
  simp only [isRunning, calls other hne]

theorem running_of_find? (held : s.engine.held.find? id = some t) :
    running who s = (s.engine.held.erase id).entries.countP
      (fun (other, t) => who other && s.isRunning other t) +
        if who id && s.isRunning id t then 1 else 0 := by
  rw [running, (SortedMap.entries_perm_of_find? held).countP_eq, List.countP_cons]

theorem running_insert (held : s'.engine.held = s.engine.held.insert id t')
    (calls : ∀ other, other ≠ id → s'.calls.find? other = s.calls.find? other) :
    running who s' = (s.engine.held.erase id).entries.countP
      (fun (other, t) => who other && s.isRunning other t) +
        if who id && s'.isRunning id t' then 1 else 0 := by
  rw [running, held, (SortedMap.entries_insert_perm _ _ _).countP_eq, List.countP_cons,
    running_erase calls]

/-- What there is to be settled is running, or was forgotten. -/
def Settles (forgotten : List TxnId) (s : Session) : Prop :=
  ∀ who, unsettled who s.engine.store.events = running who s + forgotten.countP who

namespace Settles

variable {forgotten : List TxnId}

/-- The events of one transaction, which is put in place of its former state, account for its
running before and after. -/
theorem replace (settles : s.Settles forgotten) (new : List Event)
    (old : s.engine.held.find? id = some t) (held : s'.engine.held = s.engine.held.insert id t')
    (calls : ∀ other, other ≠ id → s'.calls.find? other = s.calls.find? other)
    (events : s'.engine.store.events = s.engine.store.events ++ new)
    (mine : ∀ event ∈ new, event.id = id)
    (opens : unsettled (fun _ => true) new + (s.isRunning id t).toNat = (s'.isRunning id t').toNat) :
    s'.Settles forgotten := by
  intro who
  have hbefore := settles who
  rw [running_of_find? old] at hbefore
  rw [events, unsettled_append, unsettled_of_one mine, hbefore, running_insert held calls]
  cases who id <;> cases hrun : s.isRunning id t <;> cases hrun' : s'.isRunning id t' <;>
    simp [hrun, hrun'] at opens ⊢ <;> omega

end Settles

theorem isRunning_of_free (active : t.status = .active) (free : s.calls.find? id = none) :
    s.isRunning id t = true := by
  simp [isRunning, Transaction.isActive, active, free]

theorem isRunning_of_inactive (inactive : t.status ≠ .active) : s.isRunning id t = false := by
  have hinactive : t.isActive = false := by
    unfold Transaction.isActive
    cases hstatus : t.status <;> simp_all
  simp [isRunning, hinactive]

theorem isRunning_congr (status : t'.status = t.status)
    (calls : s'.calls.find? id = s.calls.find? id) : s'.isRunning id t' = s.isRunning id t := by
  simp only [isRunning, Transaction.isActive, status, calls]

theorem forgets_of_mayRefuse {a : Action} (mayRefuse : s.core.MayRefuse a) : s.forgets a = none := by
  cases a with
  | drop id =>
    rcases mayRefuse with hcalling | habsent
    · have hcalls : s.calls.contains id = true := by
        rw [SortedMap.contains, Option.isSome_iff_ne_none]
        exact hcalling
      simp [forgets, hcalls]
    · have hheld : s.engine.held.find? id = none := habsent
      simp [forgets, hheld]
  | _ => rfl

/-- A transaction that is running, and ends with events that settle it. -/
theorem Settles.endWith {forgotten : List TxnId} (settles : s.Settles forgotten) (new : List Event)
    (old : s.engine.held.find? id = some t) (running : s.isRunning id t = true) {store : Store}
    {marked : Transaction} {status : TransactionStatus} {calls : SortedMap TxnId InCall}
    (others : ∀ other, other ≠ id → calls.find? other = s.calls.find? other)
    (events : store.events = s.engine.store.events ++ new) (mine : ∀ event ∈ new, event.id = id)
    (opens : unsettled (fun _ => true) new = -1) (inactive : status ≠ .active) :
    Settles forgotten { engine := s.engine.endWith id store marked status, calls } := by
  refine settles.replace new old rfl others ((Store.events_released _ _).trans events) mine ?_
  rw [opens, running, isRunning_of_inactive inactive]
  rfl

theorem Settles.kept {a : Action} {forgotten : List TxnId} (settles : s'.Settles forgotten)
    (kept : s.forgets a = none) : s'.Settles (forgotten ++ (s.forgets a).toList) := by
  rwa [kept, Option.toList_none, List.append_nil]

/-- A new transaction begins to run. -/
theorem Settles.begin {forgotten : List TxnId} (settles : s.Settles forgotten) (sound : s.core.Sound good)
    (past : Snapshot) :
    Settles forgotten { s with engine := (Engine.start past).after s.engine } := by
  intro who
  let next := s.engine.store.nextTransaction
  let s' : Session := { s with engine := (Engine.start past).after s.engine }
  have hnew : s'.isRunning next (.begun next past) = true := isRunning_of_free rfl (next_free sound)
  have hrunning : running who s' = running who s + if who next then 1 else 0 := by
    have hheld : s'.engine.held = s.engine.held.insert next (.begun next past) := rfl
    rw [running_insert hheld fun _ _ => rfl, SortedMap.erase_of_find? (next_absent sound), hnew,
      Bool.and_true, running]
  have hevents : s'.engine.store.events = s.engine.store.events ++ [.began next past.version] := rfl
  have hbegan : unsettled who [.began next past.version] = if who next then 1 else 0 :=
    unsettled_of_one (by simp [Event.id])
  change unsettled who s'.engine.store.events = running who s' + _
  rw [hrunning, hevents, unsettled_append, settles who, hbegan]
  split
  · push_cast
    omega
  · omega

/-- The operations of a transaction change nothing of its running. -/
theorem Settles.perform {forgotten : List TxnId} (settles : s.Settles forgotten)
    (old : s.engine.held.find? id = some t) (held : s'.engine.held = s.engine.held.insert id t')
    (calls : s'.calls = s.calls) (events : s'.engine.store.events = s.engine.store.events)
    (status : t'.status = t.status) : s'.Settles forgotten := by
  have hsame : s'.isRunning id t' = s.isRunning id t := isRunning_congr status (by rw [calls])
  refine settles.replace [] old held (fun other _ => by rw [calls]) (by rw [events, List.append_nil])
    nofun ?_
  rw [hsame]
  exact Int.zero_add _

/-- A transaction is let go of, and forgotten if it is active. -/
theorem Settles.drop {forgotten : List TxnId} (settles : s.Settles forgotten)
    (held : s.engine.held.find? id = some t) (free : s.calls.find? id = none)
    (gone : s'.engine.held = s.engine.held.erase id) (calls : s'.calls = s.calls)
    (events : s'.engine.store.events = s.engine.store.events) :
    s'.Settles (forgotten ++ (s.forgets (.drop id)).toList) := by
  intro who
  have hforgets : s.forgets (.drop id) = if s.isRunning id t then some id else none := by
    simp only [forgets, SortedMap.contains_eq_false_iff.mpr free, held, isRunning, free, Option.any_some,
      Bool.and_true, Bool.false_eq_true, if_false]
  have hbefore := settles who
  have hgone : running who s' = (s.engine.held.erase id).entries.countP
      fun (other, t) => who other && s.isRunning other t := by
    rw [running, gone, running_erase fun other _ => by rw [calls]]
  rw [running_of_find? held, ← hgone] at hbefore
  rw [events, hbefore, hforgets, List.countP_append]
  cases s.isRunning id t <;> cases hwho : who id <;> simp [hwho]
  omega

/-- One action settles, begins or forgets what it says. -/
theorem Effect.settles {a : Action} {log : Option Committed} {forgotten : List TxnId}
    (effect : Effect s a log s') (within : a.Within good) (sound : s.core.Sound good)
    (settles : s.Settles forgotten) : s'.Settles (forgotten ++ (s.forgets a).toList) := by
  cases effect with
  | nothing mayRefuse => exact settles.kept (forgets_of_mayRefuse mayRefuse)
  | usedHandle absent => exact Settles.kept (fun who => settles who) rfl
  | unparked held active free reads lost => exact Settles.kept (fun who => settles who) rfl
  | @began a past which =>
    have hkept : s.forgets a = none := by rcases which with ⟨rfl, -⟩ | ⟨v, rfl, -⟩ <;> rfl
    exact (settles.begin sound past).kept hkept
  | @dropped id t held free => exact settles.drop held free rfl rfl (Store.events_released _ _)
  | @performed id op t held free =>
    obtain ⟨hrest, -⟩ := Transaction.performs_soundly within (sound.held id t held).sound
    exact Settles.kept (settles.perform held rfl rfl rfl (by rw [hrest])) rfl
  | @attached id o t held free =>
    have within' : (Op.attachTo ⟨s.engine.nextHandle⟩ o).Within good := within
    obtain ⟨hrest, -⟩ := Transaction.performs_soundly within' (sound.held id t held).sound
    exact Settles.kept (settles.perform held rfl rfl rfl (by rw [hrest])) rfl
  | aborted held free active =>
    exact (settles.endWith [_] held (isRunning_of_free active free) (fun _ _ => rfl) rfl
      (by simp [Event.id]) rfl (by simp)).kept rfl
  | unchanged ready nothing =>
    exact (settles.endWith [_] ready.held (isRunning_of_free ready.active ready.free) (fun _ _ => rfl) rfl
      (by simp [Event.id]) rfl (by simp)).kept rfl
  | @lockedOut id t fault locks ready something lost =>
    exact (settles.endWith [.conflicted id fault, .aborted id (.failed fault)] ready.held
      (isRunning_of_free ready.active ready.free) (fun _ _ => rfl) (List.append_assoc _ _ _)
      (by simp [Event.id]) rfl (by simp)).kept rfl
  | @conflicted id t fault guard locks heap ready something locked lost counted =>
    exact (settles.endWith [.conflicted id fault, .aborted id (.failed fault)] ready.held
      (isRunning_of_free ready.active ready.free) (fun _ _ => rfl) (List.append_assoc _ _ _)
      (by simp [Event.id]) rfl (by simp)).kept rfl
  | @published id t guard locks p ready something locked unconflicted which =>
    refine Settles.kept (settles.replace [] ready.held rfl
      (fun _ hne => SortedMap.find?_insert_of_ne _ _ hne) (List.append_nil _).symm nofun ?_) rfl
    have active : t.status = .active := ready.active
    rw [isRunning_of_free active ready.free]
    simp [isRunning, Transaction.isActive, Transaction.settled, active, unsettled]
  | @concluded id t p held calling =>
    have active : t.status = .active := (sound.calls_held held calling).active
    have hrunning : s.isRunning id t = true := by
      simp [isRunning, Transaction.isActive, active, calling]
    exact (settles.endWith [.committed id p.version p.handles.length] held hrunning
      (fun _ hne => SortedMap.find?_erase_of_ne _ hne) rfl (by simp [Event.id]) rfl (by simp)).kept rfl
  | @parked id t filed listeners p held active free reads registered which =>
    refine Settles.kept (settles.replace [.retried id t.readSet.length] held
      (SortedMap.insert_of_find? held).symm (fun _ hne => SortedMap.find?_insert_of_ne _ _ hne) rfl
      (by simp [Event.id]) ?_) rfl
    rw [isRunning_of_free active free]
    simp [isRunning, unsettled, Event.opens, Event.kind]
  | @suspended id t p held calling =>
    refine Settles.kept (settles.replace [] held rfl
      (fun _ hne => SortedMap.find?_insert_of_ne _ _ hne) ?_ nofun ?_) rfl
    · rw [List.append_nil]
      exact Store.events_released _ _
    · simp [isRunning, calling, unsettled]
  | @woken id t p held calling =>
    have active : t.status = .active := (sound.calls_held held calling).active
    refine Settles.kept (settles.replace [.began id s.engine.store.heap.head.version] held rfl
      (fun _ hne => SortedMap.find?_erase_of_ne _ hne) rfl (by simp [Event.id]) ?_) rfl
    simp [isRunning, Transaction.isActive, active, calling, unsettled, Event.opens, Event.kind,
      SortedMap.find?_erase_self]

theorem settles_run {actions : List Action} {forgotten : List TxnId}
    (sound : s.core.Sound fun _ => True) (settles : s.Settles forgotten) :
    (s.run actions).Settles (forgotten ++ Session.forgotten actions s) := by
  induction actions generalizing s forgotten with
  | nil =>
    rw [Session.forgotten, List.append_nil]
    exact settles
  | cons a later ih =>
    have hstep := (effect sound a).settles a.within_any sound settles
    have hlater := ih (sound_step a.within_any sound) hstep
    rwa [List.append_assoc] at hlater

theorem settles_ofConfig (config : Config) : (ofConfig config).Settles [] := fun _ => rfl

end Session

end TransactionalHeap
