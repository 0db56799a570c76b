import TransactionalHeap.Object.Stock
import TransactionalHeap.Proofs.Engine.Settling
import TransactionalHeap.Proofs.Program.Calling

/-!
# What an atomic call leaves unfinished

A call lets go of the transaction of every turn. By then the transaction has committed, was aborted,
or has waited and started over, but for one case: the body of the last turn has returned and left a
branch open. The commit is refused then, and the transaction goes while it is active
(`Program.atomically_finishes`).
-/
namespace TransactionalHeap

section

variable [Transactables]

/-- An active transaction with an open branch. It can go on, but not commit. -/
def Transaction.isBranching (t : Transaction) : Bool := t.isActive && !t.frames.isEmpty

namespace Engine

variable {e : Engine} {id : TxnId} {t : Transaction}

/-- Of the transactions that are told to commit, only those with an open branch stay active. -/
theorem commit_leaves {good : Object → Prop} (held : e.held.find? id = some t) (sound : t.Sound good) :
    ∃ t', ((commit id).after e).held.find? id = some t' ∧ t'.isActive = t.isBranching := by
  have hrefused : ∀ {fault : Error}, beginCommit id e = .error fault e → t.isActive = t.isBranching →
      ∃ t', ((commit id).after e).held.find? id = some t' ∧ t'.isActive = t.isBranching := by
    intro fault refused same
    have hcommit : commit id e = .error fault e := bind_of_error refused
    exact ⟨t, by rw [Step.after_of_error hcommit]; exact held, same⟩
  have hended : ∀ {e' : Engine} {store : Store} {marked : Transaction} {status : TransactionStatus},
      (commit id).after e = e'.endWith id store marked status → status ≠ .active →
      t.isBranching = false →
      ∃ t', ((commit id).after e).held.find? id = some t' ∧ t'.isActive = t.isBranching := by
    intro e' store marked status hafter inactive closed
    refine ⟨marked.finish status, by rw [hafter]; exact SortedMap.find?_insert_self _ _ _, ?_⟩
    rw [closed]
    exact decide_eq_false inactive
  cases hactive : t.isActive with
  | false =>
    have inactive : t.status ≠ .active := of_decide_eq_false hactive
    have hsame : t.isActive = t.isBranching := by rw [Transaction.isBranching, hactive, Bool.false_and]
    have hbegin := beginCommit_of_ended held inactive
    cases hstatus : t.status with
    | active => exact absurd hstatus inactive
    | aborted reason =>
      rw [hstatus] at hbegin
      exact hrefused hbegin hsame
    | committed v =>
      rw [hstatus] at hbegin
      have hcommit : commit id e = .ok v e := bind_of_ok hbegin
      exact ⟨t, by rw [Step.after_of_ok hcommit]; exact held, hsame⟩
  | true =>
    have active : t.status = .active := of_decide_eq_true hactive
    cases hframes : t.frames with
    | cons frame others =>
      have hopened : t.depth ≠ 0 := by simp [Transaction.depth, hframes]
      refine hrefused (beginCommit_of_open held active hopened) ?_
      simp [Transaction.isBranching, hactive, hframes]
    | nil =>
      have closed : t.isBranching = false := by simp [Transaction.isBranching, hframes]
      have hbegin := beginCommit_of_sound held active hframes sound
      split at hbegin
      · exact hended (Step.after_of_ok (bind_of_ok hbegin)) (by simp) closed
      · split at hbegin
        · exact hended (Step.after_of_error (bind_of_error hbegin)) (by simp) closed
        · split at hbegin
          · exact hended (Step.after_of_error (bind_of_error hbegin)) (by simp) closed
          · have hcommit : commit id e = endCommit id _ _ := bind_of_ok hbegin
            have hheld := SortedMap.find?_insert_self e.held id t.settled
            exact hended (Step.after_of_ok (hcommit.trans (endCommit_eq hheld _))) (by simp) closed

theorem abort_leaves (held : e.held.find? id = some t) :
    ∃ t', ((abort id).after e).held.find? id = some t' ∧ t'.isActive = false := by
  have habort := abort_eq held
  cases hstatus : t.status with
  | active =>
    rw [hstatus] at habort
    rw [Step.after_of_ok (habort.trans (endAborted_eq held .byCaller))]
    exact ⟨_, SortedMap.find?_insert_self _ _ _, rfl⟩
  | committed v =>
    rw [hstatus] at habort
    rw [Step.after_of_error habort]
    exact ⟨t, held, by simp [Transaction.isActive, hstatus]⟩
  | aborted reason =>
    rw [hstatus] at habort
    rw [Step.after_of_ok habort]
    exact ⟨t, held, by simp [Transaction.isActive, hstatus]⟩

end Engine

namespace Session

variable {s : Session} {actions : List Action} {id : TxnId} {t : Transaction}

theorem forgotten_append (first second : List Action) (s : Session) :
    forgotten (first ++ second) s = forgotten first s ++ forgotten second (s.run first) := by
  induction first generalizing s with
  | nil => rfl
  | cons a later ih =>
    rw [List.cons_append, forgotten, forgotten, ih, List.append_assoc]
    rfl

theorem forgets_drop (held : s.engine.held.find? id = some t) (free : s.calls.find? id = none) :
    s.forgets (.drop id) = if t.isActive then some id else none := by
  simp only [forgets, SortedMap.contains_eq_false_iff.mpr free, held, Option.any_some,
    Bool.false_eq_true, if_false]

/-- Who is forgotten is let go of, outside of calls. -/
theorem held_of_forgets {a : Action} (forgets : s.forgets a = some id) :
    a = .drop id ∧ s.calls.find? id = none ∧ ∃ t, s.engine.held.find? id = some t := by
  cases a with
  | drop other =>
    rw [Session.forgets] at forgets
    cases hcalls : s.calls.contains other with
    | true => simp [hcalls] at forgets
    | false =>
      cases hheld : s.engine.held.find? other with
      | none => simp [hcalls, hheld] at forgets
      | some t =>
        obtain ⟨-, rfl⟩ : t.isActive = true ∧ other = id := by simpa [hcalls, hheld] using forgets
        exact ⟨rfl, SortedMap.contains_eq_false_iff.mp hcalls, t, hheld⟩
  | _ => cases forgets

theorem forgotten_held (mem : id ∈ forgotten actions s) : ∃ before later t,
    actions = before ++ .drop id :: later ∧ (s.run before).engine.held.find? id = some t ∧
      (s.run before).calls.find? id = none := by
  induction actions generalizing s with
  | nil => cases mem
  | cons a later ih =>
    rcases List.mem_append.mp mem with hnow | hlater
    · obtain ⟨rfl, free, t, held⟩ := held_of_forgets (Option.mem_toList.mp hnow)
      exact ⟨[], later, t, rfl, held, free⟩
    · obtain ⟨before, rest, t, rfl, held, free⟩ := ih hlater
      exact ⟨a :: before, rest, t, rfl, held, free⟩

/-- Who is forgotten in a run is gone at its end. -/
theorem forgotten_gone (sound : s.core.Sound fun _ => True) (mem : id ∈ forgotten actions s) :
    (s.run actions).engine.held.find? id = none := by
  obtain ⟨before, later, t, rfl, held, free⟩ := forgotten_held mem
  have hbefore := sound_run_any sound before
  have hused := Nat.lt_of_lt_of_le (hbefore.held id t held).begun (moves hbefore (.drop id)).next_le
  rw [run_append]
  exact absent_run (sound_step (a := .drop id) trivial hbefore) (step_drop_absent free) hused later

theorem forgotten_present (sound : s.core.Sound fun _ => True) (mem : id ∈ forgotten actions s) :
    id < (s.run actions).engine.store.nextTransaction ∧
      (id < s.engine.store.nextTransaction → ∃ t, s.engine.held.find? id = some t) := by
  obtain ⟨before, later, t, rfl, held, -⟩ := forgotten_held mem
  exact present_of_held sound held

theorem filter_forgotten_of_kept (kept : .drop id ∉ actions) :
    (forgotten actions s).filter (· = id) = [] := by
  refine List.filter_eq_nil_iff.mpr fun other mem hsame => ?_
  obtain ⟨before, later, t, rfl, -⟩ := forgotten_held mem
  rw [of_decide_eq_true hsame] at kept
  exact kept (List.mem_append_right _ List.mem_cons_self)

/-- What comes of letting go of a transaction at the end of a run. -/
theorem filter_forgotten_drop (kept : .drop id ∉ actions) :
    (forgotten (actions ++ [.drop id]) s).filter (· = id) =
      ((s.run actions).forgets (.drop id)).toList := by
  have hnow : forgotten [.drop id] (s.run actions) = ((s.run actions).forgets (.drop id)).toList :=
    List.append_nil _
  rw [forgotten_append, List.filter_append, filter_forgotten_of_kept kept, List.nil_append, hnow]
  refine List.filter_eq_self.mpr fun other mem => ?_
  obtain ⟨hsame, -⟩ := held_of_forgets (Option.mem_toList.mp mem)
  exact decide_eq_true (Action.drop.inj hsame).symm

theorem running_eq_zero {who : TxnId → Bool}
    (absent : ∀ id, who id = true → s.engine.held.find? id = none) : running who s = 0 := by
  refine List.countP_eq_zero.mpr fun (id, t) hmem hrunning => ?_
  have hheld := absent id (Bool.and_eq_true_iff.mp hrunning).1
  rw [SortedMap.mem_entries_iff.mp hmem] at hheld
  cases hheld

/-- What there is to be settled of transactions that begin in a run and are gone at its end: as many as
the run forgets. -/
theorem unsettled_of_gone {config : Config} {past : List Action} {who : TxnId → Bool}
    (reached : (ofConfig config).run past = s)
    (new : ∀ id, who id = true → s.engine.store.nextTransaction ≤ id)
    (gone : ∀ id, who id = true → (s.run actions).engine.held.find? id = none) :
    unsettled who s.engine.store.events = 0 ∧
      unsettled who (s.run actions).engine.store.events = (forgotten actions s).countP who := by
  have hsound : s.core.Sound fun _ => True := reached ▸ sound_reached config past
  have hbefore : s.Settles (forgotten past (ofConfig config)) := by
    rw [← reached]
    exact settles_run (sound_ofConfig config) (settles_ofConfig config)
  have hafter : (s.run actions).Settles (forgotten past (ofConfig config) ++ forgotten actions s) :=
    settles_run hsound hbefore
  have habsent : ∀ id, who id = true → s.engine.held.find? id = none := fun id hid => by
    cases hheld : s.engine.held.find? id with
    | none => rfl
    | some t => exact absurd (hsound.held id t hheld).begun (Nat.not_lt_of_le (new id hid))
  have hnone : (forgotten past (ofConfig config)).countP who = 0 := by
    refine List.countP_eq_zero.mpr fun id mem hid => ?_
    have hused := (forgotten_present (sound_ofConfig config) mem).1
    rw [reached] at hused
    exact Nat.not_lt_of_le (new id hid) hused
  constructor
  · rw [hbefore who, running_eq_zero habsent, hnone]
    rfl
  · rw [hafter who, running_eq_zero gone, List.countP_append, hnone, Nat.zero_add]
    exact Int.zero_add _

theorem unfinished_reached {config : Config} {past : List Action}
    (reached : (ofConfig config).run past = s) :
    s.engine.store.statistics.unfinished = unsettled (fun _ => true) s.engine.store.events := by
  have hbooked : s.Booked config.initialVersion :=
    reached ▸ booked_run (sound_ofConfig config) (booked_ofConfig config)
  rw [hbooked.told, unfinished_tally]

/-! ## What a turn forgets -/

/-- Whether a transaction is forgotten does not depend on who begins before. -/
theorem forgets_after_begin (used : id < s.engine.store.nextTransaction) :
    (s.step .begin).forgets (.drop id) = s.forgets (.drop id) := by
  have hheld : (s.step .begin).engine.held.find? id = s.engine.held.find? id := by
    rw [step_begin]
    exact SortedMap.find?_insert_of_ne _ _ (Nat.ne_of_lt used)
  simp only [forgets, hheld]
  rfl

/-- Of those who are told to commit and let go of, the ones with an open branch are forgotten. -/
theorem forgets_after_commit (sound : s.core.Sound fun _ => True)
    (held : s.engine.held.find? id = some t) (free : s.calls.find? id = none) :
    (s.run [.publish id, .conclude id]).forgets (.drop id) = if t.isBranching then some id else none := by
  obtain ⟨t', held', hactive⟩ := Engine.commit_leaves held (sound.held id t held).sound
  rw [run_commit free, forgets_drop (s := s.onEngine (Engine.commit id)) held' free, hactive]

theorem forgets_after_abort (held : s.engine.held.find? id = some t) (free : s.calls.find? id = none) :
    (s.step (.abort id)).forgets (.drop id) = none := by
  obtain ⟨t', held', hactive⟩ := Engine.abort_leaves held
  rw [step_abort free, forgets_drop (s := s.onEngine (Engine.abort id)) held' free, hactive]
  rfl

end Session

namespace Program

variable {ε α : Type} {call : Atomic ε α} {limit : Option UInt32} {calls : ε → SortedMap TxnId InCall}
  {part : List Action → Prop} {turn next : Turn ε} {id : TxnId} {w left : World ε} {fuel : Nat}

/-- The body of the turn returns, and its transaction is active with an open branch. -/
def Atomic.leavesOpen (call : Atomic ε α) (turn : Turn ε) : Bool :=
  match call.ran turn with
  | .ok _ left => (left.engine.held.find? turn.id).any Transaction.isBranching
  | .error _ _ => false

/-- The transaction that the last of some turns leaves open. -/
def Atomic.leftOpen (call : Atomic ε α) (turns : List (Turn ε)) : Option TxnId :=
  (turns.getLast?.filter call.leavesOpen).map Turn.id

theorem Atomic.leftOpen_cons {turns : List (Turn ε)} (mem : next ∈ turns) :
    call.leftOpen (turn :: turns) = call.leftOpen turns := by
  cases turns with
  | nil => cases mem
  | cons first later => rw [leftOpen, leftOpen, List.getLast?_cons_cons]

/-- After the body has returned, commit and drop forget the transaction if it was left open. -/
theorem Turn.Regular.forgets_after_commit {x : α} {acts : List Action} (regular : turn.Regular calls)
    (kept : .drop turn.id ∉ acts) (ran : call.ran turn = .ok x left)
    (run : (turn.world.session calls).run acts = left.session calls)
    (free : (calls left.env).find? turn.id = none) :
    ((turn.world.session calls).run (acts ++ [.publish turn.id, .conclude turn.id])).forgets
      (.drop turn.id) = if call.leavesOpen turn then some turn.id else none := by
  obtain ⟨t, held⟩ := regular.held_run kept
  have hsound := Session.sound_run_any regular.sound acts
  rw [run] at held hsound
  have hheld : left.engine.held.find? turn.id = some t := held
  have hopen : call.leavesOpen turn = t.isBranching := by
    rw [Atomic.leavesOpen, ran]
    simp only [hheld, Option.any_some]
  rw [hopen, Session.run_append, run]
  exact Session.forgets_after_commit hsound held free

/-- A turn forgets its transaction if it leaves it open. -/
theorem Passage.forgotten {actions : List Action} (passage : Passage call calls part turn actions)
    (regular : turn.Regular calls) (kept : ∀ acts, part acts → .drop turn.id ∉ acts) :
    (Session.forgotten actions (turn.world.session calls)).filter (· = turn.id) =
      if call.leavesOpen turn then [turn.id] else [] := by
  have hclosed : ∀ {fault : Error} {left : World ε}, call.ran turn = .error (.failed fault) left →
      call.leavesOpen turn = false := fun ran => by rw [Atomic.leavesOpen, ran]
  cases passage with
  | @conflicted x left acts ran body run free =>
    have hsplit : acts ++ [.publish turn.id, .conclude turn.id, .begin, .drop turn.id] =
        (acts ++ [.publish turn.id, .conclude turn.id]) ++ [.begin] ++ [.drop turn.id] := by simp
    rw [hsplit, Session.filter_forgotten_drop (by simpa using kept acts body), Session.run_append]
    have hbegin := Session.forgets_after_begin
      (regular.used_run (acts ++ [.publish turn.id, .conclude turn.id]))
    change Option.toList (Session.forgets (Session.step _ .begin) _) = _
    rw [hbegin, regular.forgets_after_commit (kept acts body) ran run free]
    split <;> rfl
  | @waited left acts others later ran body first second spared =>
    have hspared : .drop turn.id ∉ others ++ later := fun hmem => spared _ hmem rfl
    have hkept : .drop turn.id ∉
        acts ++ .park turn.id :: (others ++ .suspend turn.id :: (later ++ [.wake turn.id])) := by
      simpa [kept acts body] using hspared
    rw [hclosed ran, Session.filter_forgotten_of_kept hkept]
    rfl
  | @committed x left acts ran body run free =>
    have hsplit : acts ++ [.publish turn.id, .conclude turn.id, .drop turn.id] =
        (acts ++ [.publish turn.id, .conclude turn.id]) ++ [.drop turn.id] := by simp
    rw [hsplit, Session.filter_forgotten_drop (by simpa using kept acts body),
      regular.forgets_after_commit (kept acts body) ran run free]
    split <;> rfl
  | @abandoned fault left waiting acts tried ran body unparked run free =>
    have htried : .drop turn.id ∉ acts ++ tried := by
      rcases unparked with rfl | rfl <;> simpa using kept acts body
    have hsplit : acts ++ (tried ++ [.abort turn.id, .drop turn.id]) =
        (acts ++ tried) ++ [.abort turn.id] ++ [.drop turn.id] := by simp
    obtain ⟨t, held⟩ := regular.held_run htried
    rw [run] at held
    have hkept : .drop turn.id ∉ acts ++ tried ++ [.abort turn.id] := by simpa using htried
    rw [hclosed ran, hsplit, Session.filter_forgotten_drop hkept, Session.run_append, run]
    change Option.toList (Session.forgets (Session.step _ (.abort turn.id)) _) = _
    rw [Session.forgets_after_abort held free]
    rfl

/-- A turn that goes on leaves nothing open. -/
theorem Atomic.GoesOn.closed (goesOn : call.GoesOn limit turn next) : call.leavesOpen turn = false := by
  cases goesOn with
  | @conflicted x left fault engine ran failed retryable room =>
    refine Bool.eq_false_iff.mpr fun hopen => ?_
    simp only [leavesOpen, ran, Option.any_eq_true] at hopen
    obtain ⟨t, held, branching⟩ := hopen
    obtain ⟨hactive, hframes⟩ : t.isActive = true ∧ t.frames ≠ [] := by
      simpa [Transaction.isBranching] using branching
    have hopened : t.depth ≠ 0 := fun hdepth => hframes (List.length_eq_zero_iff.mp hdepth)
    -- the refusal of a commit with an open branch is no conflict
    have hrefused : Engine.commit turn.id left.engine = _ :=
      bind_of_error (Engine.beginCommit_of_open held (of_decide_eq_true hactive) hopened)
    rw [hrefused] at failed
    cases failed
    cases retryable
  | @waited left woken ran waited => rw [leavesOpen, ran]

/-- Actions that lead from one turn of a call to the next and forget no transaction of the call. The
transaction of the first turn is that of the next one, or it is gone. -/
structure Turn.LeadsTo (turn next : Turn ε) (calls : ε → SortedMap TxnId InCall) (actions : List Action) :
    Prop where
  run : (turn.world.session calls).run actions = next.world.session calls
  others : ∀ id ∈ Session.forgotten actions (turn.world.session calls),
    id ≠ turn.id ∧ id ≠ next.id ∧ id < next.world.engine.store.nextTransaction
  which : next.id = turn.id ∨ next.world.engine.held.find? turn.id = none ∧
    turn.id < next.world.engine.store.nextTransaction

theorem Atomic.GoesOn.leads (goesOn : call.GoesOn limit turn next) (fits : turn.Fits call calls part)
    (kept : ∀ acts, part acts → .drop turn.id ∉ acts) (regular : turn.Regular calls) :
    ∃ actions, turn.LeadsTo next calls actions ∧ next.Regular calls := by
  obtain ⟨actions, passage, hrun, hregular, -, which⟩ := goesOn.passes fits regular
  have hused := regular.used_run actions
  rw [hrun] at hused
  refine ⟨actions, ⟨hrun, fun id mem => ⟨?_, ?_, ?_⟩, ?_⟩, hregular⟩
  · have hmine := passage.forgotten regular kept
    rw [goesOn.closed] at hmine
    simpa using List.filter_eq_nil_iff.mp hmine id mem
  · rintro rfl
    obtain ⟨t, held, -⟩ := hregular.fresh
    have hgone := Session.forgotten_gone regular.sound mem
    rw [hrun, World.session, held] at hgone
    cases hgone
  · have hpresent := (Session.forgotten_present regular.sound mem).1
    rwa [hrun] at hpresent
  · exact which.imp_right fun hrenews => ⟨hrenews.replaces.gone, hused⟩

/-- Of the transactions of a call, its turns forget those that its later turns forget. -/
theorem Turn.LeadsTo.forgotten {turns : List (Turn ε)} {actions : List Action}
    (leads : turn.LeadsTo next calls actions) (regular : next.Regular calls) (mem : next ∈ turns)
    (new : ∀ turn' ∈ turns,
      turn'.id = next.id ∨ next.world.engine.store.nextTransaction ≤ turn'.id) (later : List Action) :
    (Session.forgotten (actions ++ later) (turn.world.session calls)).filter
        (· ∈ (turn :: turns).map Turn.id) =
      (Session.forgotten later (next.world.session calls)).filter (· ∈ turns.map Turn.id) := by
  have hbefore : (Session.forgotten actions (turn.world.session calls)).filter
      (· ∈ (turn :: turns).map Turn.id) = [] := by
    refine List.filter_eq_nil_iff.mpr fun id forgotten mine => ?_
    obtain ⟨hne, hne', hlt⟩ := leads.others id forgotten
    rcases List.mem_cons.mp (of_decide_eq_true mine) with hid | mine
    · exact hne hid
    · obtain ⟨turn', hturn', rfl⟩ := List.mem_map.mp mine
      rcases new turn' hturn' with hid | hnew
      · exact hne' hid
      · exact Nat.not_lt_of_le hnew hlt
  rw [Session.forgotten_append, List.filter_append, hbefore, List.nil_append, leads.run]
  refine List.filter_congr fun id forgotten => decide_eq_decide.mpr ⟨fun mine => ?_, .tail _⟩
  rcases List.mem_cons.mp mine with rfl | mine
  · rcases leads.which with hsame | ⟨absent, used⟩
    · exact List.mem_map.mpr ⟨next, mem, hsame⟩
    · obtain ⟨t, held⟩ := (Session.forgotten_present regular.sound forgotten).2 used
      rw [World.session, absent] at held
      cases held
  · exact mine

/-- The transaction of the first turn is gone when those of the later turns are. -/
theorem Turn.LeadsTo.gone {turns : List (Turn ε)} {actions later : List Action}
    (leads : turn.LeadsTo next calls actions) (regular : next.Regular calls) (mem : next ∈ turns)
    (run : (next.world.session calls).run later = left.session calls)
    (gone : ∀ turn' ∈ turns, left.engine.held.find? turn'.id = none) :
    ∀ turn' ∈ turn :: turns, left.engine.held.find? turn'.id = none := by
  intro turn' hmem
  rcases List.mem_cons.mp hmem with rfl | hmem
  · rcases leads.which with hsame | ⟨absent, used⟩
    · rw [← hsame]
      exact gone next mem
    · have hstill := Session.absent_run regular.sound absent used later
      rwa [run] at hstill
  · exact gone turn' hmem

/-- Who was abandoned is gone. -/
theorem abandon_gone {fault : Error} (ends : EndsIn (abandon (α := α) id fault w) left) :
    left.engine.held.find? id = none := by
  cases hheld : w.engine.held.find? id with
  | none =>
    have habandon : abandon (α := α) id fault w = _ :=
      bind_of_error (lift_of_error (Engine.transaction_of_absent hheld))
    rw [habandon] at ends
    cases ends
    exact hheld
  | some t =>
    rw [abandon_eq hheld] at ends
    cases ends
    exact Engine.held_drop _ _

/-- A call that ends has let go of the transaction of its last turn. -/
theorem Atomic.Ends.gone {result : EStateM.Result Exit (World ε) α} (ends : call.Ends limit turn result)
    (hleft : EndsIn result left) : left.engine.held.find? turn.id = none := by
  cases ends with
  | returned ran committed =>
    cases hleft
    exact Engine.held_drop _ _
  | refused ran failed final =>
    cases hleft
    exact Engine.held_drop _ _
  | failed ran final => exact abandon_gone hleft
  | unwoken ran lost => exact abandon_gone hleft
  | stuck => cases hleft

/-- A call that ends has taken the turn that it has begun. -/
theorem mem_of_ends (ends : EndsIn (attempts call limit fuel turn.done turn.id turn.world) left) :
    turn ∈ call.turnsFrom limit fuel turn := by
  cases fuel with
  | zero =>
    obtain ⟨stuck, hstuck⟩ := attempts_zero call limit turn.done turn.id turn.world
    rw [hstuck] at ends
    cases ends
  | succ fuel =>
    rw [Atomic.turnsFrom_succ]
    exact List.mem_cons_self

/-- What a call from one turn on leaves behind: none of its transactions, and of these it has forgotten
just the one that the last turn leaves open. -/
theorem attempts_forgets {kind : Turn ε → List Action → Prop} (regular : turn.Regular calls)
    (kept : ∀ turn : Turn ε, ∀ acts, kind turn acts → .drop turn.id ∉ acts)
    (fits : ∀ turn' ∈ call.turnsFrom limit fuel turn, turn'.Fits call calls (kind turn'))
    (ends : EndsIn (attempts call limit fuel turn.done turn.id turn.world) left) :
    let turns := call.turnsFrom limit fuel turn
    ∃ actions, (turn.world.session calls).run actions = left.session calls ∧
      (∀ turn' ∈ turns, left.engine.held.find? turn'.id = none) ∧
      (Session.forgotten actions (turn.world.session calls)).filter (· ∈ turns.map Turn.id) =
        (call.leftOpen turns).toList := by
  induction fuel generalizing turn with
  | zero =>
    obtain ⟨stuck, hstuck⟩ := attempts_zero call limit turn.done turn.id turn.world
    rw [hstuck] at ends
    cases ends
  | succ fuel ih =>
    rw [Atomic.turnsFrom_succ] at fits ⊢
    have hturn := fits turn List.mem_cons_self
    rcases attempts_cases call limit fuel turn with ⟨next, hnext, goesOn, hrest⟩ | ⟨hlast, hends⟩
    · rw [hnext] at fits ⊢
      rw [hrest] at ends
      have hfits := fun turn' hmem => fits turn' (List.mem_cons_of_mem _ hmem)
      obtain ⟨actions, leads, hregular⟩ := goesOn.leads hturn (kept turn) regular
      obtain ⟨later, hlater, hgone, hforgotten⟩ := ih hregular hfits ends
      have hmem : next ∈ call.turnsFrom limit fuel next := mem_of_ends ends
      refine ⟨actions ++ later, ?_, leads.gone hregular hmem hlater hgone, ?_⟩
      · rw [Session.run_append, leads.run, hlater]
      · have hlast := leads.forgotten hregular hmem
          (fun _ hturn' => Atomic.id_of_mem_turnsFrom hregular hfits hturn') later
        rw [Option.map_some, Option.getD_some, hlast, hforgotten, Atomic.leftOpen_cons hmem]
    · obtain ⟨actions, passage, hrun, -⟩ := hends.passes hturn (kept turn) regular ends
      rw [hlast]
      refine ⟨actions, hrun, fun turn' hmem => ?_, ?_⟩
      · obtain rfl := List.mem_singleton.mp hmem
        exact hends.gone ends
      · have hforgotten := passage.forgotten regular (kept turn)
        simp only [Option.map_none, Option.getD_none, List.map_cons, List.map_nil, List.mem_singleton]
        rw [hforgotten, Atomic.leftOpen, List.getLast?_singleton, Option.filter_some]
        split <;> rfl

/-- Of the transactions of a call nothing is to be settled before it, and nothing after it but for the one
that it leaves open. -/
theorem unsettled_atomically {config : Config} {past : List Action} {who : TxnId → Bool}
    (reached : (Session.ofConfig config).run past = w.session calls)
    (fits : ∀ turn ∈ call.turns fuel w, turn.Fits call calls fun acts => .drop turn.id ∉ acts)
    (ends : EndsIn (atomically call fuel w) left)
    (driven : ∀ id, who id = true → id ∈ (call.turns fuel w).map Turn.id) :
    unsettled who w.engine.store.events = 0 ∧ unsettled who left.engine.store.events =
      (call.leftOpen (call.turns fuel w)).toList.countP who := by
  have hsound := Session.sound_reached config past
  rw [reached] at hsound
  have hregular : (Turn.first w).Regular calls := Turn.regular_first hsound
  rw [atomically_eq] at ends
  obtain ⟨actions, hrun, hgone, hforgotten⟩ := attempts_forgets hregular (fun _ _ => id) fits ends
  have hrun' : (w.session calls).run (.begin :: actions) = left.session calls := hrun
  obtain ⟨hbefore, hafter⟩ : unsettled who w.engine.store.events = 0 ∧
      unsettled who ((w.session calls).run (.begin :: actions)).engine.store.events =
        (Session.forgotten (.begin :: actions) (w.session calls)).countP who := by
    refine Session.unsettled_of_gone reached (fun id hid => ?_) fun id hid => ?_
    · obtain ⟨turn, hturn, rfl⟩ := List.mem_map.mp (driven id hid)
      rcases Atomic.id_of_mem_turnsFrom hregular fits hturn with hsame | hnew
      · exact Nat.le_of_eq hsame.symm
      · exact Nat.le_trans (Session.next_le_run hsound [.begin]) hnew
    · obtain ⟨turn, hturn, rfl⟩ := List.mem_map.mp (driven id hid)
      rw [hrun']
      exact hgone turn hturn
  refine ⟨hbefore, ?_⟩
  rw [hrun'] at hafter
  refine hafter.trans (congrArg Nat.cast ?_)
  change (Session.forgotten actions ((Turn.first w).world.session calls)).countP who = _
  rw [Atomic.turns, ← hforgotten, List.countP_filter]
  refine List.countP_congr fun id _ => ?_
  rw [Bool.and_eq_true, decide_eq_true_eq]
  exact ⟨fun hid => ⟨hid, driven id hid⟩, And.left⟩

theorem Atomic.leftOpen_mem {turns : List (Turn ε)} (mem : id ∈ (call.leftOpen turns).toList) :
    id ∈ turns.map Turn.id := by
  obtain ⟨last, hlast, rfl⟩ := Option.map_eq_some_iff.mp (Option.mem_toList.mp mem)
  exact List.mem_map.mpr ⟨last, List.mem_of_getLast? (Option.filter_eq_some_iff.mp hlast).1, rfl⟩

/-- An atomic call finishes its transactions, unless the body of the last turn returns with a branch open:
then that turn's transaction is left unfinished. Whatever else is unfinished is due to others. -/
theorem atomically_finishes (config : Config) (past : List Action)
    (reached : (Session.ofConfig config).run past = w.session calls) (call : Atomic ε α) (fuel : Nat)
    (fits : ∀ turn ∈ call.turns fuel w, turn.Fits call calls fun acts => .drop turn.id ∉ acts)
    (ends : EndsIn (atomically call fuel w) left) :
    let turns := call.turns fuel w
    let driven : TxnId → Bool := fun id => id ∈ turns.map Turn.id
    (∀ turn ∈ turns, unsettled (· = turn.id) w.engine.store.events = 0 ∧
      unsettled (· = turn.id) left.engine.store.events =
        if call.leftOpen turns = some turn.id then 1 else 0) ∧
    left.engine.store.statistics.unfinished - unsettled (!driven ·) left.engine.store.events =
      w.engine.store.statistics.unfinished - unsettled (!driven ·) w.engine.store.events +
        (call.leftOpen turns).toList.length := by
  intro turns driven
  refine ⟨fun turn hturn => ?_, ?_⟩
  · have hdriven : ∀ id, decide (id = turn.id) = true → id ∈ turns.map Turn.id := fun id hid =>
      List.mem_map.mpr ⟨turn, hturn, (of_decide_eq_true hid).symm⟩
    obtain ⟨hbefore, hafter⟩ := unsettled_atomically reached fits ends hdriven
    refine ⟨hbefore, hafter.trans ?_⟩
    cases call.leftOpen turns with
    | none => rfl
    | some id => by_cases hsame : id = turn.id <;> simp [hsame]
  · have hdriven : ∀ id, driven id = true → id ∈ turns.map Turn.id := fun _ => of_decide_eq_true
    obtain ⟨hbefore, hafter⟩ := unsettled_atomically reached fits ends hdriven
    have hopen : (call.leftOpen turns).toList.countP driven = (call.leftOpen turns).toList.length :=
      List.countP_eq_length.mpr fun id mem => decide_eq_true (Atomic.leftOpen_mem mem)
    obtain ⟨more, -, reached'⟩ := atomically_reaches reached.symm (fun _ => allows_all _)
      (by simpa only [true_and] using fits) ends
    have hw : w.engine.store.statistics.unfinished = unsettled (fun _ => true) w.engine.store.events :=
      Session.unfinished_reached reached
    have hleft : left.engine.store.statistics.unfinished =
        unsettled (fun _ => true) left.engine.store.events := Session.unfinished_reached reached'
    have hsplit := unsettled_split driven w.engine.store.events
    have hsplit' := unsettled_split driven left.engine.store.events
    rw [hbefore] at hsplit
    rw [hafter, hopen] at hsplit'
    rw [hw, hleft, ← hsplit, ← hsplit']
    omega

end Program

end

namespace Program

/-- A call whose body opens a branch and returns. -/
def openEnded : Atomic Unit Unit := .ofBody fun id => lift (Engine.on id Op.startOr.run)

/-- What comes of a call that is the first thing to be done. -/
def failureOf (call : Atomic Unit Unit) (fuel : Nat) : Option (Error × Statistics) :=
  match atomically call fuel ⟨(Session.ofConfig {}).engine, ()⟩ with
  | .error (.failed fault) left => some (fault, left.engine.store.statistics)
  | _ => none

/-- The call fails and does not abort its transaction. -/
theorem openEnded_unfinished :
    failureOf openEnded 1 = some (.invalidOperation (.openBranches 1), { started := 1 }) ∧
      ({ started := 1 } : Statistics).unfinished = 1 := by
  constructor
  · decide +kernel
  · decide

theorem openEnded_fits {calls : Unit → SortedMap TxnId InCall} (turn : Turn Unit)
    (regular : turn.Regular calls) :
    turn.Fits openEnded calls fun acts => .drop turn.id ∉ acts :=
  regular.fits_ofBody (by simp) (acts_perform regular.free .startOr (by simp))
    fun _ _ => regular.free

theorem atomically_finishes_openEnded :
    ∃ (w left : World Unit) (fault : Error), w = ⟨(Session.ofConfig {}).engine, ()⟩ ∧
      atomically openEnded 1 w = .error (.failed fault) left ∧
      unsettled (· = 1) w.engine.store.events = 0 ∧ unsettled (· = 1) left.engine.store.events = 1 := by
  obtain ⟨w, hw, reached, hids, hopen, hfails⟩ : ∃ w : World Unit,
      w = ⟨(Session.ofConfig {}).engine, ()⟩ ∧
      (Session.ofConfig {}).run [] = (w.session fun _ => ∅) ∧
      (openEnded.turns 1 w).map Turn.id = [1] ∧ openEnded.leftOpen (openEnded.turns 1 w) = some 1 ∧
      (match atomically openEnded 1 w with
        | .error (.failed _) _ => true
        | _ => false) = true :=
    ⟨_, rfl, rfl, by decide +kernel, by decide +kernel, by decide +kernel⟩
  have hfits : ∀ turn ∈ openEnded.turns 1 w,
      turn.Fits openEnded (fun _ => ∅) fun acts => .drop turn.id ∉ acts := by
    have hsound := Session.sound_reached {} []
    rw [reached] at hsound
    exact Atomic.fits_turns (Turn.regular_first hsound) openEnded_fits
  cases hrun : atomically openEnded 1 w with
  | ok x left =>
    rw [hrun] at hfails
    cases hfails
  | error exit left =>
    cases exit with
    | stuck =>
      rw [hrun] at hfails
      cases hfails
    | failed fault =>
      obtain ⟨hturns, -⟩ := atomically_finishes {} [] reached openEnded 1 hfits (.of_failed hrun)
      have hone : 1 ∈ (openEnded.turns 1 w).map Turn.id := by
        rw [hids]
        exact List.mem_singleton.mpr rfl
      obtain ⟨turn, hturn, hid⟩ := List.mem_map.mp hone
      obtain ⟨hbefore, hafter⟩ := hturns turn hturn
      rw [hopen, hid, if_pos rfl] at hafter
      rw [hid] at hbefore
      exact ⟨w, left, fault, hw, hrun, hbefore, hafter⟩

end Program

end TransactionalHeap
