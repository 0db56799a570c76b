import TransactionalHeap.Object.Stock
import TransactionalHeap.Proofs.Program.TakingEffect

/-!
# How many conflicts an atomic call puts up with

With a limit of `m`, the first `m` commits of an atomic call that lose against others or get no locks
lead to another run on a new transaction, and the one after them ends the call. Waits in between do
neither count nor reset the count (`Program.conflict_limit_exact`).
-/
namespace TransactionalHeap

namespace Program.Attempts

variable {n : Attempts} {m : UInt32} (within : n.conflicts.toNat ≤ m.toNat)
  (room : m.toNat < 2 ^ 32 - 1)
include within room

theorem toNat_conflicts_succ : (n.conflicts + 1).toNat = n.conflicts.toNat + 1 := by
  rw [UInt32.toNat_add]
  exact Nat.mod_eq_of_lt (by simp only [UInt32.toNat_one]; omega)

/-- A count within the limit exhausts it once it has got there. -/
theorem exhausts_iff : n.exhausts (some m) = true ↔ n.conflicts.toNat = m.toNat := by
  rw [exhausts, decide_eq_true_iff, UInt32.lt_iff_toNat_lt, toNat_conflicts_succ within room]
  omega

end Program.Attempts

section

variable [Transactables]

namespace Program

variable {ε α : Type}

namespace Atomic

/-! ## How turns come out -/

/-- How a turn comes out for the call that takes it: the commit of its transaction has failed, but may be
made again; its wait is over; or there is nothing that would call for another turn. -/
inductive Outcome (ε : Type) where
  | conflicted (fault : Error) (left : World ε)
  | woken (left : World ε)
  | ended

def Outcome.isConflict : Outcome ε → Bool
  | .conflicted .. => true
  | .woken _ | .ended => false

def Outcome.isWoken : Outcome ε → Bool
  | .woken _ => true
  | .conflicted .. | .ended => false

def outcome (call : Atomic ε α) (turn : Turn ε) : Outcome ε :=
  match call.ran turn with
  | .ok _ left =>
    match Engine.commit turn.id left.engine with
    | .ok _ _ => .ended
    | .error fault engine => if fault.isRetryable then .conflicted fault { left with engine } else .ended
  | .error (.failed .retry) left =>
    match call.wait turn.id left with
    | .ok _ woken => .woken woken
    | .error _ _ => .ended
  | .error _ _ => .ended

/-- How many of the turns have ended in a conflict. -/
def conflicts (call : Atomic ε α) (turns : List (Turn ε)) : Nat :=
  turns.countP fun turn => (call.outcome turn).isConflict

/-- How many of the turns have waited. -/
def waits (call : Atomic ε α) (turns : List (Turn ε)) : Nat :=
  turns.countP fun turn => (call.outcome turn).isWoken

/-- What is left when the call gives up after a turn. -/
def letGo (turn : Turn ε) (left : World ε) : World ε :=
  { left with engine := (Engine.drop turn.id).after left.engine }

variable {call : Atomic ε α} {limit : Option UInt32} {turn first : Turn ε} {fault : Error}
  {left : World ε} {fuel : Nat} {before later : List (Turn ε)}

theorem ran_of_conflicted (conflict : call.outcome turn = .conflicted fault left) :
    ∃ x between engine, call.ran turn = .ok x between ∧
      Engine.commit turn.id between.engine = .error fault engine ∧ fault.isRetryable = true ∧
      left = { between with engine } := by
  unfold outcome at conflict
  split at conflict
  · next x between hran =>
    split at conflict
    · cases conflict
    · next fault' engine hcommit =>
      split at conflict
      · next hretryable =>
        cases conflict
        exact ⟨x, between, engine, hran, hcommit, hretryable, rfl⟩
      · cases conflict
  · split at conflict <;> cases conflict
  · cases conflict

theorem nextTurn_of_conflicted (conflict : call.outcome turn = .conflicted fault left) :
    call.nextTurn limit turn =
      if turn.done.exhausts limit then none else some (afterConflict turn left) := by
  obtain ⟨x, between, engine, hran, hcommit, hretryable, rfl⟩ := ran_of_conflicted conflict
  simp only [nextTurn, hran, hcommit, hretryable, Bool.not_true, Bool.false_or]

theorem nextTurn_of_woken (woken : call.outcome turn = .woken left) :
    call.nextTurn limit turn = some (afterWait turn left) := by
  unfold outcome at woken
  split at woken
  · split at woken
    · cases woken
    · split at woken <;> cases woken
  · next between hran =>
    split at woken
    · next hwait =>
      cases woken
      simp only [nextTurn, hran, hwait]
    · cases woken
  · cases woken

theorem nextTurn_of_ended (ended : call.outcome turn = .ended) : call.nextTurn limit turn = none := by
  unfold outcome at ended
  split at ended
  · next hran =>
    split at ended
    · next hcommit => simp only [nextTurn, hran, hcommit]
    · next hcommit =>
      split at ended
      · cases ended
      · next hfinal => simp [nextTurn, hran, hcommit, hfinal]
  · next hran =>
    split at ended
    · cases ended
    · next hwait => simp only [nextTurn, hran, hwait]
  · next hother hran =>
    unfold nextTurn
    rw [hran]
    split
    · cases ‹_ = EStateM.Result.ok _ _›
    · next heq =>
      cases heq
      exact (hother rfl).elim
    · rfl

/-- One conflict too many is what the call reports. -/
theorem attempts_of_exhausted (conflict : call.outcome turn = .conflicted fault left)
    (exhausted : turn.done.exhausts limit = true) :
    attempts call limit (fuel + 1) turn.done turn.id turn.world =
      .error (.failed fault) (letGo turn left) := by
  obtain ⟨x, between, engine, hran, hcommit, -, rfl⟩ := ran_of_conflicted conflict
  have hbody := attemptFor_of_ok turn.id hran
  have hattempt := attempt_of_failed (lift_of_error hcommit)
  refine (bind_of_ok hbody).trans ((bind_of_ok hattempt).trans ?_)
  simp only [exhausted, Bool.or_true, if_true]
  exact giveUp_eq turn.id fault _

theorem attempts_of_next {next : Turn ε} (hnext : call.nextTurn limit turn = some next) :
    attempts call limit (fuel + 1) turn.done turn.id turn.world =
      attempts call limit fuel next.done next.id next.world := by
  rcases attempts_cases call limit fuel turn with ⟨next', hnext', -, hrest⟩ | ⟨hnone, -⟩
  · cases hnext.symm.trans hnext'
    exact hrest
  · cases hnext.symm.trans hnone

/-! ## Counting the conflicts -/

variable {m : UInt32} {next : Turn ε}

theorem conflicts_append (xs ys : List (Turn ε)) :
    call.conflicts (xs ++ ys) = call.conflicts xs + call.conflicts ys := List.countP_append

theorem conflicts_singleton (turn : Turn ε) :
    call.conflicts [turn] = if (call.outcome turn).isConflict then 1 else 0 := List.countP_singleton

/-- A call with a turn behind it that goes on has counted its conflict, and stays within the limit. -/
theorem counted_of_next (room : m.toNat < 2 ^ 32 - 1) (within : turn.done.conflicts.toNat ≤ m.toNat)
    (hnext : call.nextTurn (some m) turn = some next) :
    next.done.conflicts.toNat = turn.done.conflicts.toNat + call.conflicts [turn] ∧
      next.done.conflicts.toNat ≤ m.toNat := by
  cases houtcome : call.outcome turn with
  | ended => cases hnext.symm.trans (nextTurn_of_ended houtcome)
  | woken left =>
    cases hnext.symm.trans (nextTurn_of_woken houtcome)
    rw [conflicts_singleton, houtcome]
    exact ⟨rfl, within⟩
  | conflicted fault left =>
    have hfollows := hnext.symm.trans (nextTurn_of_conflicted houtcome)
    split at hfollows
    · cases hfollows
    · next hexhausts =>
      cases hfollows
      rw [Attempts.exhausts_iff within room] at hexhausts
      have hcount := Attempts.toNat_conflicts_succ within room
      rw [conflicts_singleton, houtcome]
      exact ⟨hcount, by rw [afterConflict, hcount]; omega⟩

/-- Wherever a call stands, what is to come does not depend on how it got there, and its count is that
of the conflicts so far. -/
theorem turnsFrom_split (room : m.toNat < 2 ^ 32 - 1) (within : first.done.conflicts.toNat ≤ m.toNat)
    (split : call.turnsFrom (some m) fuel first = before ++ turn :: later) :
    ∃ k, fuel = before.length + (k + 1) ∧ turn :: later = call.turnsFrom (some m) (k + 1) turn ∧
      attempts call (some m) fuel first.done first.id first.world =
        attempts call (some m) (k + 1) turn.done turn.id turn.world ∧
      turn.done.conflicts.toNat = first.done.conflicts.toNat + call.conflicts before ∧
      turn.done.conflicts.toNat ≤ m.toNat := by
  induction before generalizing first fuel with
  | nil =>
    cases fuel with
    | zero => cases split
    | succ k =>
      obtain rfl : first = turn := by
        rw [turnsFrom_succ] at split
        exact (List.cons.inj split).1
      exact ⟨k, (Nat.zero_add _).symm, split.symm, rfl, rfl, within⟩
  | cons earlier before ih =>
    cases fuel with
    | zero => cases split
    | succ fuel =>
      rw [turnsFrom_succ] at split
      obtain ⟨rfl, hrest⟩ := List.cons.inj split
      cases hnext : call.nextTurn (some m) first with
      | none =>
        rw [hnext] at hrest
        cases before <;> cases hrest
      | some next =>
        rw [hnext] at hrest
        obtain ⟨hcount, hwithin⟩ := counted_of_next room within hnext
        obtain ⟨k, hfuel, hturns, hattempts, hcounted, hle⟩ := ih hwithin hrest
        refine ⟨k, ?_, hturns, (attempts_of_next hnext).trans hattempts, ?_, hle⟩
        · rw [List.length_cons]
          omega
        · rw [hcounted, hcount, Nat.add_assoc, ← conflicts_append]
          rfl

/-! ## What a limit means -/

/-- Among its turns the call goes on with the given one, unless there is no fuel left for it. -/
def GoesOnWith (fuel : Nat) (turns later : List (Turn ε)) (result : EStateM.Result Exit (World ε) α)
    (next : Turn ε) : Prop :=
  (∃ rest, later = next :: rest) ∨
    later = [] ∧ turns.length = fuel ∧ ∃ left, result = .error .stuck left

/-- The turns and the result of a call with a limit. No turn is begun with more conflicts behind than
the limit says. A conflict leads to a new transaction as long as there were fewer before; the one after
them is the result. A wait leads to another turn, whatever was before, and nothing else does. -/
structure KeepsLimit (call : Atomic ε α) (m fuel : Nat) (turns : List (Turn ε))
    (result : EStateM.Result Exit (World ε) α) : Prop where
  within : ∀ {before turn later}, turns = before ++ turn :: later → call.conflicts before ≤ m
  conflicted : ∀ {before turn later fault left}, turns = before ++ turn :: later →
    call.outcome turn = .conflicted fault left →
    call.conflicts before < m ∧ GoesOnWith fuel turns later result (afterConflict turn left) ∨
    call.conflicts before = m ∧ later = [] ∧ result = .error (.failed fault) (letGo turn left)
  woken : ∀ {before turn later left}, turns = before ++ turn :: later →
    call.outcome turn = .woken left → GoesOnWith fuel turns later result (afterWait turn left)
  ended : ∀ {before turn later}, turns = before ++ turn :: later → call.outcome turn = .ended → later = []

/-- The call has ended by a conflict, and this is its result. -/
def GivesUp (call : Atomic ε α) (turns : List (Turn ε)) (result : EStateM.Result Exit (World ε) α) :
    Prop :=
  ∃ before last fault left, turns = before ++ [last] ∧ call.outcome last = .conflicted fault left ∧
    result = .error (.failed fault) (letGo last left)

/-- A turn with another one to follow goes on with it, if there is fuel. -/
theorem goesOnWith_of_next {k : Nat} {turns : List (Turn ε)}
    (split : turns = before ++ turn :: later) (hfuel : fuel = before.length + (k + 1))
    (hturns : turn :: later = call.turnsFrom (some m) (k + 1) turn)
    (hnext : call.nextTurn (some m) turn = some next) :
    GoesOnWith fuel turns later
      (attempts call (some m) (k + 1) turn.done turn.id turn.world) next := by
  rw [turnsFrom_succ, hnext] at hturns
  have hlater : later = call.turnsFrom (some m) k next := (List.cons.inj hturns).2
  cases k with
  | zero =>
    obtain rfl : later = [] := hlater
    obtain ⟨left, hstuck⟩ := attempts_zero call (some m) next.done next.id next.world
    refine .inr ⟨rfl, ?_, left, (attempts_of_next hnext).trans hstuck⟩
    rw [split, hfuel, List.length_append]
    rfl
  | succ k =>
    rw [turnsFrom_succ] at hlater
    exact .inl ⟨_, hlater⟩

theorem later_eq_nil_of_last {k : Nat} (hturns : turn :: later = call.turnsFrom (some m) (k + 1) turn)
    (hlast : call.nextTurn (some m) turn = none) : later = [] := by
  rw [turnsFrom_succ, hlast] at hturns
  exact (List.cons.inj hturns).2

theorem keepsLimit (room : m.toNat < 2 ^ 32 - 1) (fresh : first.done.conflicts = 0) :
    call.KeepsLimit m.toNat fuel (call.turnsFrom (some m) fuel first)
      (attempts call (some m) fuel first.done first.id first.world) where
  within split := by
    obtain ⟨k, -, -, -, hcounted, hle⟩ :=
      turnsFrom_split room (by rw [fresh]; exact Nat.zero_le _) split
    rwa [hcounted, fresh, UInt32.toNat_zero, Nat.zero_add] at hle
  conflicted split conflict := by
    obtain ⟨k, hfuel, hturns, hattempts, hcounted, hle⟩ :=
      turnsFrom_split room (by rw [fresh]; exact Nat.zero_le _) split
    rw [fresh, UInt32.toNat_zero, Nat.zero_add] at hcounted
    have hnext := @nextTurn_of_conflicted _ _ _ _ (some m) _ _ _ conflict
    rw [hattempts, ← hcounted]
    split at hnext
    · next hexhausts =>
      refine .inr ⟨(Attempts.exhausts_iff hle room).mp hexhausts, later_eq_nil_of_last hturns hnext, ?_⟩
      exact attempts_of_exhausted conflict hexhausts
    · next hexhausts =>
      rw [Attempts.exhausts_iff hle room] at hexhausts
      exact .inl ⟨by omega, goesOnWith_of_next split hfuel hturns hnext⟩
  woken split woken := by
    obtain ⟨k, hfuel, hturns, hattempts, -⟩ :=
      turnsFrom_split room (by rw [fresh]; exact Nat.zero_le _) split
    rw [hattempts]
    exact goesOnWith_of_next split hfuel hturns (nextTurn_of_woken woken)
  ended split ended := by
    obtain ⟨k, -, hturns, -⟩ := turnsFrom_split room (by rw [fresh]; exact Nat.zero_le _) split
    exact later_eq_nil_of_last hturns (nextTurn_of_ended ended)

/-! ## What follows for the whole call -/

/-- Turns that are followed by others have met a conflict or have waited. -/
theorem length_of_goOn {turns : List (Turn ε)} (goOn : ∀ turn ∈ turns, call.outcome turn ≠ .ended) :
    turns.length = call.conflicts turns + call.waits turns := by
  rw [List.length_eq_countP_add_countP fun turn => (call.outcome turn).isConflict]
  refine congrArg (call.conflicts turns + ·) (List.countP_congr fun turn hmem => ?_)
  cases houtcome : call.outcome turn with
  | ended => exact absurd houtcome (goOn turn hmem)
  | conflicted | woken => simp [Outcome.isConflict, Outcome.isWoken]

namespace KeepsLimit

variable {n : Nat} {turns : List (Turn ε)} {result : EStateM.Result Exit (World ε) α}

/-- The call gives up with the first conflict beyond the limit, and for no other conflict. -/
theorem givesUp_iff (keeps : call.KeepsLimit n fuel turns result) :
    call.GivesUp turns result ↔ call.conflicts turns = n + 1 := by
  constructor
  · rintro ⟨before, last, fault, left, split, conflict, hresult⟩
    rcases keeps.conflicted split conflict with
      ⟨-, ⟨rest, hmore⟩ | ⟨-, -, left', hstuck⟩⟩ | ⟨hcount, -, -⟩
    · cases hmore
    · cases hresult.symm.trans hstuck
    · rw [split, conflicts_append, conflicts_singleton, conflict, hcount]
      rfl
  · intro hcount
    rcases List.eq_nil_or_concat turns with rfl | ⟨before, last, split⟩
    · cases hcount
    · rw [List.concat_eq_append] at split
      have hwithin := keeps.within split
      rw [split, conflicts_append, conflicts_singleton] at hcount
      cases houtcome : call.outcome last with
      | ended | woken left =>
        rw [houtcome, Outcome.isConflict, if_neg Bool.false_ne_true] at hcount
        omega
      | conflicted fault left =>
        rcases keeps.conflicted split houtcome with ⟨hless, -⟩ | ⟨-, -, hresult⟩
        · rw [houtcome, Outcome.isConflict, if_pos rfl] at hcount
          omega
        · exact ⟨before, last, fault, left, split, houtcome, hresult⟩

/-- The body runs once, once again for each conflict within the limit, and once for each wait. -/
theorem length_le (keeps : call.KeepsLimit n fuel turns result) :
    turns.length ≤ n + 1 + call.waits turns := by
  rcases List.eq_nil_or_concat turns with rfl | ⟨before, last, split⟩
  · exact Nat.zero_le _
  · rw [List.concat_eq_append] at split
    have hgoOn : ∀ turn ∈ before, call.outcome turn ≠ .ended := by
      intro turn hmem ended
      obtain ⟨earlier, later, rfl⟩ := List.append_of_mem hmem
      rw [List.append_assoc] at split
      have hlast := keeps.ended split ended
      simp at hlast
    have hbefore := length_of_goOn hgoOn
    have hwithin := keeps.within split
    have hwaits : call.waits before ≤ call.waits turns := by
      rw [split, waits, waits, List.countP_append]
      exact Nat.le_add_right _ _
    rw [split, List.length_append, List.length_singleton, ← split]
    omega

end KeepsLimit

/-- A conflict puts a new transaction, on the newest snapshot, in the place of the old one. -/
theorem replaces_of_conflicted {calls : ε → SortedMap TxnId InCall} {part : List Action → Prop}
    (regular : turn.Regular calls) (fits : turn.Fits call calls part)
    (conflict : call.outcome turn = .conflicted fault left) :
    ((afterConflict turn left).world.session calls).Replaces (afterConflict turn left).id turn.id := by
  obtain ⟨x, between, engine, hran, hcommit, -, rfl⟩ := ran_of_conflicted conflict
  obtain ⟨acts, -, hrun, hfree⟩ := fits.run_body (.of_ok hran)
  have hsound := Session.sound_run_any regular.sound acts
  have hused := regular.used_run acts
  rw [hrun] at hsound hused
  obtain ⟨hrestart, hreplaces, -⟩ :=
    Session.run_restart hsound hfree hused hcommit
  rw [hrestart] at hreplaces
  exact hreplaces

/-- Every turn of a call that fits begins as it should. -/
theorem regular_of_mem_turnsFrom {calls : ε → SortedMap TxnId InCall}
    {kind : Turn ε → List Action → Prop} (regular : first.Regular calls)
    (fits : ∀ turn ∈ call.turnsFrom limit fuel first, turn.Fits call calls (kind turn)) :
    ∀ turn ∈ call.turnsFrom limit fuel first, turn.Regular calls := by
  induction fuel generalizing first with
  | zero => exact fun turn hmem => by cases hmem
  | succ fuel ih =>
    intro turn hmem
    rw [turnsFrom_succ] at hmem fits
    rcases List.mem_cons.mp hmem with rfl | hmem
    · exact regular
    · rcases attempts_cases call limit fuel first with ⟨next, hnext, goesOn, -⟩ | ⟨hlast, -⟩
      · rw [hnext] at hmem fits
        obtain ⟨-, -, -, hregular, -⟩ := goesOn.passes (fits first List.mem_cons_self) regular
        exact ih hregular (fun turn hmem => fits turn (List.mem_cons_of_mem _ hmem)) turn hmem
      · rw [hlast] at hmem
        cases hmem

end Atomic

/-- With a limit of `m`, a call gives up when the commit of its own transaction has failed for the
`m + 1`st time because of others, and reports that failure. Each of the failures before has led to another
run on a new transaction that starts on the newest snapshot. Waits do not matter for this, so the body
runs at most `m + 1` times and once more for each wait. -/
theorem conflict_limit_exact (call : Atomic ε α) (fuel : Nat) (w : World ε) {m : UInt32}
    (limit : w.engine.store.config.maxConflictRetries = some m) (room : m.toNat < 2 ^ 32 - 1) :
    let turns := call.turns fuel w
    let result := atomically call fuel w
    call.KeepsLimit m.toNat fuel turns result ∧
    (call.GivesUp turns result ↔ call.conflicts turns = m.toNat + 1) ∧
    turns.length ≤ m.toNat + 1 + call.waits turns ∧
    ∀ (config : Config) (past : List Action) (calls : ε → SortedMap TxnId InCall)
      (kind : Turn ε → List Action → Prop), (Session.ofConfig config).run past = w.session calls →
      (∀ turn ∈ turns, turn.Fits call calls (kind turn)) →
      ∀ turn ∈ turns, turn.Regular calls ∧ ∀ fault left, call.outcome turn = .conflicted fault left →
        let next := Atomic.afterConflict turn left
        (next.world.session calls).Replaces next.id turn.id := by
  intro turns result
  have hkeeps : call.KeepsLimit m.toNat fuel turns result := by
    simp only [turns, result, Atomic.turns, atomically_eq, limit]
    exact Atomic.keepsLimit room rfl
  refine ⟨hkeeps, hkeeps.givesUp_iff, hkeeps.length_le, fun config past calls kind reached fits => ?_⟩
  have hsound := Session.sound_reached config past
  rw [reached] at hsound
  have hregular := Atomic.regular_of_mem_turnsFrom (Turn.regular_first hsound) fits
  exact fun turn hmem => ⟨hregular turn hmem, fun fault left conflict =>
    Atomic.replaces_of_conflicted (hregular turn hmem) (fits turn hmem) conflict⟩

end Program

end

namespace Program

/-- Add to a counter in a transaction of its own. -/
def addAlone (h : Nat) (n : Int64) : Program Unit Unit := do
  let _ ← attempt (atomically (.ofBody fun id => lift (Engine.on id (Session.addTo h n).run)) 1)

/-- A call whose runs all lose against another transaction, but for the second one, which waits. -/
def stubborn : Atomic Unit Nat where
  body
    | 1, id => do
      lift (Engine.on id (Session.addTo 1 100).run)
      fail .retry
    | n, id => do
      lift (Engine.on id (Session.addTo 1 100).run)
      addAlone 1 1
      return n
  wait id := retryWith id (addAlone 1 7)

section Alone

variable {calls : Unit → SortedMap TxnId InCall} {id : TxnId} {w : World Unit}

theorem addAlone_acts (sound : (w.session calls).core.Sound fun _ => True)
    (used : id < w.engine.store.nextTransaction) (h : Nat) (n : Int64) :
    (addAlone h n).Acts (Spares id) calls w := by
  refine (Acts.attempt ?_).bind (fun _ _ => spares_append) fun _ _ _ => acts_pure nofun ()
  refine atomically_spares sound used
    (Atomic.fits_turns (Turn.regular_first sound) fun turn regular => regular.fits_ofBody ?_ ?_ ?_)
  · exact ⟨nofun, nofun⟩
  · exact acts_perform regular.free _ ⟨by simp [Spares, Action.Closes], by simp⟩
  · exact fun left _ => regular.free

theorem addAlone_unfailing (h : Nat) (n : Int64) (w : World Unit) (fault : Error) (left : World Unit) :
    addAlone h n w ≠ .error (.failed fault) left := by
  rcases attempt_cases (atomically (.ofBody fun id => lift (Engine.on id (Session.addTo h n).run)) 1) w
    with ⟨result, left', hran, -⟩ | ⟨left', hstuck⟩
  · rw [addAlone, bind_of_ok hran]
    nofun
  · rw [addAlone, bind_of_error hstuck]
    nofun

/-- Adding to a counter, and then something else while another transaction adds to it. -/
theorem addTo_addAlone_acts {α : Type} (sound : (w.session calls).core.Sound fun _ => True)
    (free : (calls w.env).find? id = none) (used : id < w.engine.store.nextTransaction) (h : Nat)
    (n m : Int64) (a : α) : Acts (Spares id) calls (do
      lift (Engine.on id (Session.addTo h n).run)
      addAlone h m
      return a) w := by
  refine (addTo_acts free h n).bind (fun _ _ => spares_append) fun u left hran => ?_
  obtain ⟨hsound, hgrown⟩ := (addTo_acts free h n).sound sound (.of_ok hran)
  exact (addAlone_acts hsound (Nat.lt_of_lt_of_le used hgrown) h m).bind (fun _ _ => spares_append)
    fun _ _ _ => acts_pure nofun a

end Alone

theorem stubborn_fits {calls : Unit → SortedMap TxnId InCall} (turn : Turn Unit)
    (regular : turn.Regular calls) : turn.Fits stubborn calls (Spares turn.id) := by
  have hbody : ∀ n, (stubborn.body n turn.id).Acts (Spares turn.id) calls turn.world
    | 1 => (addTo_acts regular.free 1 100).bind (fun _ _ => spares_append) fun _ _ _ =>
      acts_fail nofun .retry
    | 0 => addTo_addAlone_acts regular.sound regular.free (regular.used_run []) 1 100 1 0
    | n + 2 => addTo_addAlone_acts regular.sound regular.free (regular.used_run []) 1 100 1 (n + 2)
  refine ⟨hbody _, fun left _ => regular.free, fun left hran => ?_⟩
  obtain ⟨hsound, -⟩ := (hbody _).sound regular.sound (.of_failed hran)
  refine waits_retryWith hsound regular.free nofun (addAlone_unfailing 1 7)
    (fun _ _ free _ => free) fun p engine _ hparked => ?_
  have hcalling : (World.session { left with engine } (withParked calls turn.id p)).calls.find?
      turn.id = some (.parked p) := SortedMap.find?_insert_self _ _ _
  obtain ⟨t, held, -⟩ := hparked.calls turn.id _ hcalling
  intro left' ends
  obtain ⟨actions, spares, hrun⟩ :=
    addAlone_acts hparked (hparked.held turn.id t held).begun 1 7 left' ends
  exact ⟨actions, ⟨spares, spares⟩, hrun⟩

/-- With a limit of one, the first conflict leads to another transaction, the wait in the second run does
not count, and the conflict in the third run is what the call reports. -/
theorem conflict_limit_exact_sample : ∃ (w : World Unit) (calls : Unit → SortedMap TxnId InCall),
    (Session.ofConfig { maxConflictRetries := some 1 }).run attachedTen = w.session calls ∧
    let turns := stubborn.turns 5 w
    turns.map Turn.id = [2, 4, 4] ∧
    turns.map (fun turn => (stubborn.outcome turn).isWoken) = [false, true, false] ∧
    stubborn.GivesUp turns (atomically stubborn 5 w) ∧
    ∃ turn ∈ turns, ∃ fault left, stubborn.outcome turn = .conflicted fault left ∧
      let next := Atomic.afterConflict turn left
      (next.world.session calls).Replaces next.id turn.id := by
  obtain ⟨w, calls, reached, hlimit, hids, hwaits, hconflicts⟩ :
      ∃ (w : World Unit) (calls : Unit → SortedMap TxnId InCall),
      (Session.ofConfig { maxConflictRetries := some 1 }).run attachedTen = w.session calls ∧
      w.engine.store.config.maxConflictRetries = some 1 ∧
      (stubborn.turns 5 w).map Turn.id = [2, 4, 4] ∧
      (stubborn.turns 5 w).map (fun turn => (stubborn.outcome turn).isWoken) = [false, true, false] ∧
      stubborn.conflicts (stubborn.turns 5 w) = 2 := by
    let s := (Session.ofConfig { maxConflictRetries := some 1 }).run attachedTen
    exact ⟨⟨s.engine, ()⟩, fun _ => s.calls, rfl, rfl, by decide +kernel, by decide +kernel,
      by decide +kernel⟩
  obtain ⟨-, hgivesUp, -, hrenews⟩ := conflict_limit_exact stubborn 5 w hlimit (by decide)
  have hsound := Session.sound_reached { maxConflictRetries := some 1 } attachedTen
  rw [reached] at hsound
  have hturns := hrenews _ _ calls _ reached
    (Atomic.fits_turns (Turn.regular_first hsound) stubborn_fits)
  obtain ⟨turn, hmem, hconflict⟩ : ∃ turn ∈ stubborn.turns 5 w,
      (stubborn.outcome turn).isConflict = true := by
    apply List.countP_pos_iff.mp
    rw [show List.countP _ _ = 2 from hconflicts]
    exact Nat.two_pos
  cases houtcome : stubborn.outcome turn with
  | conflicted fault left =>
    exact ⟨w, calls, reached, hids, hwaits, hgivesUp.mpr hconflicts, turn, hmem, fault, left, houtcome,
      (hturns turn hmem).2 fault left houtcome⟩
  | woken | ended =>
    rw [houtcome] at hconflict
    cases hconflict

end Program

end TransactionalHeap
