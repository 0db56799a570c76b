import TransactionalHeap.Object.Stock
import TransactionalHeap.Proofs.Engine.SerialReplay
import TransactionalHeap.Proofs.Program.Calling
import TransactionalHeap.Proofs.Program.Requests

/-!
# Failures that harm nothing

Most of what can be asked of a transaction may fail without ending it: an object is not there, cannot be
rebuilt or has another type, a handle is taken, a branch is or is not open, nothing was read. Such a
failure may come late, after entries were made and other objects were rebuilt. What it leaves has read
more and is the same otherwise (`Session.failed_request_harms_nothing`).

A failure of a rollback is not among them, nor is one of a commit that gets as far as collecting writes.
-/
namespace TransactionalHeap

section

variable [Transactables]

namespace Entry

variable {good : Object → Prop} {s : Snapshot} {h : Handle} {e e' : Entry}

/-- The entry is another one only in that the object has been rebuilt from its origin. -/
def Rebuilds (e e' : Entry) : Prop :=
  e.status = .clean ∧ e.object = none ∧
    ∃ r o, e.origin = some r ∧ r.rebuild = .ok o ∧ e' = { e with object := some o }

theorem Rebuilds.status_eq (rebuilds : e.Rebuilds e') : e.status = .clean ∧ e'.status = .clean := by
  obtain ⟨clean, -, r, o, -, -, rfl⟩ := rebuilds
  exact ⟨clean, clean⟩

/-- Entries that buffer nothing are read dependencies. -/
theorem Sound.clean_of_unbuffered (sound : e.Sound good s h) (unbuffered : e.buffered = none) :
    e.status = .clean ∧ ∃ r, e.origin = some r ∧ s.read h = some r := by
  cases sound with
  | fresh o absent isGood => cases unbuffered
  | loaded r object stored yielded => exact ⟨rfl, r, rfl, stored⟩
  | changed r o stored sameType isGood => cases unbuffered

/-- Of two sound entries for the same object that buffer the same, the second has at most the object
besides, rebuilt from the record. -/
theorem Sound.eq_or_rebuilds (sound : e.Sound good s h) (sound' : e'.Sound good s h)
    (buffered : e'.buffered = e.buffered) (kept : e.object.isSome → e' = e)
    (backed : e = e' ∨ e'.Backed) :
    e' = e ∨ e.Rebuilds e' := by
  cases sound with
  | fresh o absent isGood => exact .inl (kept rfl)
  | changed r o stored sameType isGood => exact .inl (kept rfl)
  | loaded r object stored yielded =>
    cases object with
    | some o => exact .inl (kept rfl)
    | none =>
      cases sound' with
      | fresh o absent isGood => cases buffered
      | changed r' o stored' sameType isGood => cases buffered
      | loaded r' object stored' yielded' =>
        obtain rfl : r = r' := Option.some.inj (stored.symm.trans stored')
        cases object with
        | none => exact .inl rfl
        | some o =>
          have hrebuild : r.rebuild = .ok o := by
            rcases backed with hsame | hbacked
            · cases hsame
            · exact hbacked rfl r o rfl rfl
          exact .inr ⟨rfl, rfl, r, o, rfl, hrebuild, rfl⟩

end Entry

namespace Transaction

variable {good : Object → Prop} {t t' : Transaction} {fault : Error}

/-- The entries that a commit may have to write. -/
def toWrite (t : Transaction) : Entries := t.entries.filter fun _ e => e.status.isWriteCandidate

/-- What is left of a transaction when something that was asked of it has failed. Only the entries may
be others: everything that was buffered is buffered still and nothing else is, no entry has gone, some
objects were rebuilt, and some stored objects were read. -/
structure Unharmed (t t' : Transaction) : Prop where
  rest : t' = { t with entries := t'.entries }
  writes : t'.toWrite = t.toWrite
  kept : ∀ h e, t.entries.find? h = some e →
    ∃ e', t'.entries.find? h = some e' ∧ (e' = e ∨ e.Rebuilds e')
  added : ∀ h e', t.entries.find? h = none → t'.entries.find? h = some e' →
    e'.status = .clean ∧ ∃ r, e'.origin = some r ∧ t.snapshot.read h = some r

theorem Unharmed.refl (t : Transaction) : Unharmed t t where
  rest := rfl
  writes := rfl
  kept _ e he := ⟨e, he, .inl rfl⟩
  added _ _ absent he := by cases absent.symm.trans he

/-- An entry stays in the write set or outside of it. -/
theorem toWrite_eq (kept : ∀ h e, t.entries.find? h = some e →
      ∃ e', t'.entries.find? h = some e' ∧ (e' = e ∨ e.Rebuilds e'))
    (added : ∀ h e', t.entries.find? h = none → t'.entries.find? h = some e' → e'.status = .clean) :
    t'.toWrite = t.toWrite := by
  have hclean : ∀ {e : Entry}, e.status = .clean →
      (some e).filter (fun e => e.status.isWriteCandidate) = none := fun clean => by
    rw [Option.filter_some, clean]
    rfl
  apply SortedMap.ext_find?
  intro h
  rw [toWrite, toWrite, SortedMap.find?_filter, SortedMap.find?_filter]
  cases hfound : t.entries.find? h with
  | some e =>
    obtain ⟨e', he', rfl | rebuilds⟩ := kept h e hfound
    · rw [he']
    · obtain ⟨clean, clean'⟩ := rebuilds.status_eq
      rw [he', hclean clean, hclean clean']
  | none =>
    cases hfound' : t'.entries.find? h with
    | none => rfl
    | some e' => exact hclean (added h e' hfound hfound')

/-- Loading harms nothing, wherever it stops. -/
theorem Loads.unharmed (loads : Loads good t t') (sound : t.Sound good) : t.Unharmed t' := by
  have hsound : ∀ h e', t'.entries.find? h = some e' → e'.Sound good t.snapshot h := by
    rw [← loads.snapshot_eq]
    exact loads.sound.entries
  have hbuffered : ∀ h, (t'.entries.find? h).bind Entry.buffered =
      (t.entries.find? h).bind Entry.buffered := fun h => by
    rw [← Entries.find?_overlay, ← Entries.find?_overlay, loads.overlay]
  have hkept : ∀ h e, t.entries.find? h = some e →
      ∃ e', t'.entries.find? h = some e' ∧ (e' = e ∨ e.Rebuilds e') := by
    intro h e he
    obtain ⟨e', he', hsame⟩ := loads.kept h e he
    have heq := hbuffered h
    rw [he, he'] at heq
    have hbacked := (loads.backed h e' he').imp_left fun hthere => Option.some.inj (he.symm.trans hthere)
    exact ⟨e', he', (sound.entries h e he).eq_or_rebuilds (hsound h e' he') heq hsame hbacked⟩
  have hadded : ∀ h e', t.entries.find? h = none → t'.entries.find? h = some e' →
      e'.status = .clean ∧ ∃ r, e'.origin = some r ∧ t.snapshot.read h = some r := by
    intro h e' absent he'
    have heq := hbuffered h
    rw [absent, he'] at heq
    exact (hsound h e' he').clean_of_unbuffered heq
  exact ⟨loads.rest, toWrite_eq hkept fun h e' absent he' => (hadded h e' absent he').1, hkept, hadded⟩

/-- A step that fails, if at all, without harm. -/
def FailsUnharmed {α : Type} (step : Step Transaction α) (t : Transaction) : Prop :=
  ∀ fault t', step t = .error fault t' → t.Unharmed t'

/-! ## What fails without harm -/

namespace FailsUnharmed

section Sound

variable (sound : t.Sound good)
include sound

theorem of_loads {α : Type} {step : Step Transaction α} (loads : OnlyLoads good step) :
    FailsUnharmed step t := by
  intro fault t' failed
  have hloads := loads t sound
  rw [Step.after_of_error failed] at hloads
  exact hloads.unharmed sound

theorem get (l : Loaded) : FailsUnharmed l.get t := by
  cases l with
  | tracked type h | deferred type h => exact of_loads sound (.read type h)
  | detached o =>
    intro fault t' failed
    have hget : (Loaded.detached o).get t = .ok o t := rfl
    cases hget.symm.trans failed

variable (active : t.status = .active)
include active

/-- Opening for a change fails before anything is changed. -/
theorem write (type : ObjectType) (h : Handle) : FailsUnharmed (write type h) t := by
  intro fault t' failed
  rcases write_cases sound active type h with ⟨t₁, fault₁, hrun, hloads, -⟩ | ⟨o, e, hrun, -⟩
  · cases hrun.symm.trans failed
    exact hloads.unharmed sound
  · cases hrun.symm.trans failed

theorem attachTo (h : Handle) (o : Object) : FailsUnharmed (attachTo h o) t := by
  intro fault t' failed
  rcases attachTo_cases sound active h o with ⟨-, hrun⟩ | ⟨-, fault₁, hrun⟩
  · cases hrun.symm.trans failed
  · cases hrun.symm.trans failed
    exact .refl t

/-- Opening a branch does not fail at all: whatever is buffered has an object to save. -/
theorem startOr : FailsUnharmed startOr t := by
  intro fault t' failed
  obtain ⟨f, hcapture, -⟩ := sound.capture
  cases (startOr_eq active hcapture).symm.trans failed

end Sound

variable (active : t.status = .active)
include active

theorem endOr : FailsUnharmed endOr t := by
  intro fault t' failed
  cases hframes : t.frames with
  | nil =>
    cases (endOr_of_none active hframes).symm.trans failed
    exact .refl t
  | cons f outer => cases (endOr_eq active hframes).symm.trans failed

theorem endOrElse (closed : t.frames = []) : FailsUnharmed endOrElse t := by
  intro fault t' failed
  cases (endOrElse_of_none active closed).symm.trans failed
  exact .refl t

end FailsUnharmed

end Transaction

/-- Parking files a latch, or fails to. Either way it leaves the transactions and the heap. -/
theorem Engine.park_rest {e : Engine} {id : TxnId} {t : Transaction}
    (held : e.held.find? id = some t) (active : t.status = .active) :
    ((park id).after e).held = e.held ∧ ((park id).after e).store.heap = e.store.heap := by
  have hpark := park_of_active held active
  split at hpark
  · rw [Step.after_of_error hpark]
    exact ⟨rfl, rfl⟩
  · have hlisten := Store.listen_eq e.store t.readSet t.startVersion
    split at hlisten
    · rw [hlisten] at hpark
      rw [Step.after_of_error hpark]
      exact ⟨rfl, rfl⟩
    · rw [hlisten] at hpark
      rw [Step.after_of_ok hpark]
      exact ⟨rfl, rfl⟩

namespace Program

variable {ε α : Type} {w left : World ε} {id : TxnId} {t : Transaction} {fault : Error}

/-- What goes on while a transaction waits: it does not fail, and it does not let go of the
transaction. -/
structure Attends (id : TxnId) (between : Program ε Unit) (w : World ε) : Prop where
  unfailing : ∀ fault left, between w ≠ .error (.failed fault) left
  holds : ∀ left, between w = .ok () left → ∃ t, left.engine.held.find? id = some t

/-- A world in which at most one transaction is another, and the heap is the same. -/
structure Unharmed (id : TxnId) (t : Transaction) (w left : World ε) : Prop where
  held : ∃ t', t.Unharmed t' ∧ left.engine.held = w.engine.held.insert id t'
  heap : left.engine.store.heap = w.engine.store.heap
  env : left.env = w.env

theorem Unharmed.still (held : w.engine.held.find? id = some t)
    (same : left.engine.held = w.engine.held)
    (heap : left.engine.store.heap = w.engine.store.heap) (env : left.env = w.env) :
    Unharmed id t w left :=
  ⟨⟨t, .refl t, by rw [same, SortedMap.insert_of_find? held]⟩, heap, env⟩

theorem lift_failed {step : Step Engine α} (failed : lift step w = .error (.failed fault) left) :
    ∃ engine, step w.engine = .error fault engine ∧ left = { w with engine } := by
  unfold lift at failed
  split at failed
  · cases failed
  · next hrun =>
    cases failed
    exact ⟨_, hrun, rfl⟩

/-- An operation of a transaction that fails without harm to it harms nothing. -/
theorem unharmed_of_on {step : Step Transaction α} (held : w.engine.held.find? id = some t)
    (harmless : Transaction.FailsUnharmed step t)
    (failed : lift (Engine.on id step) w = .error (.failed fault) left) : Unharmed id t w left := by
  obtain ⟨engine, hrun, rfl⟩ := lift_failed failed
  cases hstep : step t with
  | ok a t' => cases (Engine.on_of_ok held hstep).symm.trans hrun
  | error fault' t' =>
    cases (Engine.on_of_error held hstep).symm.trans hrun
    exact ⟨⟨t', harmless fault t' hstep, rfl⟩, rfl, rfl⟩

theorem ensureWakeable_ok {u : Unit} (h : ensureWakeable id w = .ok u left) : left = w := by
  unfold ensureWakeable at h
  split at h <;> cases h
  rfl

theorem ensureWakeable_unfailing : ensureWakeable id w ≠ .error (.failed fault) left := by
  unfold ensureWakeable
  split <;> exact nofun

/-- Whoever is there still wakes up again. -/
theorem resumes (held : w.engine.held.find? id = some t) (p : Parked) :
    ∃ left, (do lift (Engine.suspend id); lift (Engine.wake id p) : Program ε Unit) w = .ok () left := by
  have hsuspend := Engine.suspend_eq held
  have hthere := SortedMap.find?_insert_self w.engine.held id
    { t with entries := ∅, frames := [], liveVersion := none }
  exact ⟨_, (bind_of_ok (lift_of_ok hsuspend)).trans (lift_of_ok (Engine.wake_eq hthere p))⟩

/-- A retry fails only where the wait has not begun. -/
theorem park_failed_of_retryWith {between : Program ε Unit}
    (attends : ∀ p engine, Engine.park id w.engine = .ok p engine → Attends id between { w with engine })
    (failed : retryWith id between w = .error (.failed fault) left) :
    ∃ engine, Engine.park id w.engine = .error fault engine ∧ left = { w with engine } := by
  cases hpark : Engine.park id w.engine with
  | error fault' engine =>
    have hrun : retryWith id between w = .error (.failed fault') { w with engine } :=
      bind_of_error (lift_of_error hpark)
    cases hrun.symm.trans failed
    exact ⟨engine, rfl, rfl⟩
  | ok p engine =>
    exfalso
    have hattends := attends p engine hpark
    have hfiled := (bind_of_ok (lift_of_ok hpark)).symm.trans failed
    rcases error_of_bind hfiled with hbetween | ⟨u, waiting, hbetween, hwaiting⟩
    · exact hattends.unfailing _ _ hbetween
    obtain ⟨t', hthere⟩ := hattends.holds waiting hbetween
    rcases error_of_bind hwaiting with hblocked | ⟨u, woken, hopen, hwoken⟩
    · exact ensureWakeable_unfailing hblocked
    obtain ⟨left', hresumes⟩ := resumes hthere p
    rw [ensureWakeable_ok hopen] at hwoken
    cases hresumes.symm.trans hwoken

theorem unharmed_of_retryWith {between : Program ε Unit}
    (attends : ∀ p engine, Engine.park id w.engine = .ok p engine → Attends id between { w with engine })
    (held : w.engine.held.find? id = some t) (active : t.status = .active)
    (failed : retryWith id between w = .error (.failed fault) left) : Unharmed id t w left := by
  obtain ⟨engine, hpark, rfl⟩ := park_failed_of_retryWith attends failed
  obtain ⟨hheld, hheap⟩ := Engine.park_rest held active
  rw [Step.after_of_error hpark] at hheld hheap
  exact .still held hheld hheap rfl

/-- Attaching has used up a handle. -/
theorem unharmed_of_attach {o : Object} (held : w.engine.held.find? id = some t)
    (harmless : Transaction.FailsUnharmed (Transaction.attachTo ⟨w.engine.nextHandle⟩ o) t)
    (failed : lift (Engine.attach id o) w = .error (.failed fault) left) : Unharmed id t w left := by
  obtain ⟨engine, hrun, rfl⟩ := lift_failed failed
  have hafter : (Engine.on id (Transaction.attachTo ⟨w.engine.nextHandle⟩ o) >>= fun _ =>
      (pure ⟨w.engine.nextHandle⟩ : Step Engine Handle))
      { w.engine with nextHandle := w.engine.nextHandle + 1 } =
      .error fault engine := hrun
  have hon := (error_of_bind hafter).resolve_right fun ⟨_, _, _, hreturn⟩ => by cases hreturn
  obtain ⟨hheld, hheap, -⟩ := unharmed_of_on
    (w := { w with engine := { w.engine with nextHandle := w.engine.nextHandle + 1 } })
    held harmless (lift_of_error hon)
  exact ⟨hheld, hheap, rfl⟩

end Program

namespace Request

open Program

variable {ε α : Type} {w left : World ε} {id : TxnId} {t : Transaction} {fault : Error}

/-- What fails, if at all, without ending the transaction or running something else in it. A rollback
is among it if there is nothing to roll back, and a commit if there are branches open. A retry that can
wait goes on as long as the others do. -/
def LeavesGoing (id : TxnId) (t : Transaction) (w : World ε) : Request ε α → Prop
  | .attach _ | .attachTo .. | .read .. | .write .. | .load .. | .get _ | .startOr | .endOr => True
  | .endOrElse => t.frames = []
  | .commit _ => t.frames ≠ []
  | .retry between =>
    ∀ p engine, Engine.park id w.engine = .ok p engine → Attends id between { w with engine }
  | .update .. | .orElse .. | .abort => False

/-- Whatever is asked of a transaction that goes on, a failure harms nothing. -/
theorem unharmed {good : Object → Prop} (held : w.engine.held.find? id = some t)
    (sound : t.Sound good) (active : t.status = .active) {r : Request ε α}
    (going : r.LeavesGoing id t w) (failed : r.run id w = .error (.failed fault) left) :
    Unharmed id t w left := by
  cases r with
  | attach o => exact unharmed_of_attach held (.attachTo sound active _ o) failed
  | attachTo h o => exact unharmed_of_on held (.attachTo sound active h o) failed
  | read type h => exact unharmed_of_on held (.of_loads sound (.read type h)) failed
  | write type h => exact unharmed_of_on held (.write sound active type h) failed
  | load type h policy => exact unharmed_of_on held (.of_loads sound (.load type h policy)) failed
  | get l => exact unharmed_of_on held (.get sound l) failed
  | startOr => exact unharmed_of_on held (.startOr sound active) failed
  | endOr => exact unharmed_of_on held (.endOr active) failed
  | endOrElse => exact unharmed_of_on held (.endOrElse active going) failed
  | retry between => exact unharmed_of_retryWith going held active failed
  | commit between =>
    have hopen : t.depth ≠ 0 := fun hdepth => going (List.length_eq_zero_iff.mp hdepth)
    have hcommit : commitWith id between w = .error (.failed _) w :=
      bind_of_error (lift_of_error (Engine.beginCommit_of_open held active hopen))
    cases hcommit.symm.trans failed
    exact .still held rfl rfl rfl
  | update type h change => exact going.elim
  | orElse first second => exact going.elim
  | abort => exact going.elim

end Request

namespace Session

/-- Whatever is asked of an active transaction that neither ends nor rolls it back, a failure harms
nothing: the transaction is active still on the same snapshot with the same branches, all that was
buffered is there and nothing else is to be written, no entry has gone, and what was added was read
from the snapshot. Other transactions and the heap stay as they are. -/
theorem failed_request_harms_nothing (config : Config) (past : List Action) {id : TxnId}
    {t : Transaction} (held : ((ofConfig config).run past).engine.held.find? id = some t)
    (active : t.status = .active) {ε α : Type} (env : ε) {r : Request ε α}
    (going : r.LeavesGoing id t ⟨((ofConfig config).run past).engine, env⟩) {fault : Error}
    {left : World ε}
    (failed : r.run id ⟨((ofConfig config).run past).engine, env⟩ = .error (.failed fault) left) :
    ∃ t', t.Unharmed t' ∧
      left.engine.held = ((ofConfig config).run past).engine.held.insert id t' ∧
      left.engine.store.heap = ((ofConfig config).run past).engine.store.heap ∧ left.env = env := by
  have hsound := (sound_reached config past).held id t held
  obtain ⟨⟨t', hunharmed, hheld⟩, hheap, henv⟩ := Request.unharmed held hsound.sound active going failed
  exact ⟨t', hunharmed, hheld, hheap, henv⟩

end Session

end

namespace Session

/-- One of two stored objects cannot be rebuilt. A transaction has changed the other one, has attached a
third one and has opened a branch. -/
def besideBroken : List Action :=
  [.begin, .attach 1 (.counter 5), .attach 1 (.leaky [.string "x"]), .publish 1, .conclude 1, .begin,
    .perform 2 (addTo 1 5), .attach 2 (.counter 9), .perform 2 .startOr]

/-- Opening the broken object for a change fails when its entry is there already: it has been read. -/
theorem failed_request_harms_nothing_beside_broken :
    let e := ((ofConfig {}).run besideBroken).engine
    let holdings := fun t : Transaction => (t.readSet, t.toWrite.keys, t.frames.length)
    ∃ (t t' : Transaction) (fault : Error) (left : World Unit),
      e.held.find? 2 = some t ∧ holdings t = ([⟨1⟩], [⟨1⟩, ⟨3⟩], 1) ∧
      (Request.write .leaky ⟨2⟩).run 2 ⟨e, ()⟩ = .error (.failed fault) left ∧
      t.Unharmed t' ∧ left.engine.held = e.held.insert 2 t' ∧
      holdings t' = ([⟨1⟩, ⟨2⟩], [⟨1⟩, ⟨3⟩], 1) := by
  intro e holdings
  obtain ⟨t, held⟩ := Option.isSome_iff_exists.mp (by decide +kernel : (e.held.find? 2).isSome = true)
  have hbefore : (e.held.find? 2).map (fun t => (t.status, holdings t)) =
      some (.active, [⟨1⟩], [⟨1⟩, ⟨3⟩], 1) := by decide +kernel
  rw [held] at hbefore
  obtain ⟨active, hholdings⟩ := Prod.mk.inj (Option.some.inj hbefore)
  let write := Engine.on 2 (Transaction.write .leaky ⟨2⟩)
  have hresult : (write.result e).1.toOption = none ∧ ((write.after e).held.find? 2).map holdings =
      some ([⟨1⟩, ⟨2⟩], [⟨1⟩, ⟨3⟩], 1) := by decide +kernel
  cases hrun : write e with
  | ok o engine =>
    rw [Step.result_of_ok hrun] at hresult
    cases hresult.1
  | error fault engine =>
    rw [Step.after_of_error hrun] at hresult
    have hfailed : Program.lift write (⟨e, ()⟩ : World Unit) = .error (.failed fault) ⟨engine, ()⟩ :=
      Program.lift_of_error (w := ⟨e, ()⟩) hrun
    obtain ⟨t', hunharmed, hheld, -⟩ := failed_request_harms_nothing {} besideBroken held active ()
      (r := .write .leaky ⟨2⟩) trivial hfailed
    have hafter := hresult.2
    rw [show engine.held = e.held.insert 2 t' from hheld, SortedMap.find?_insert_self] at hafter
    exact ⟨t, t', fault, _, held, hholdings, hfailed, hunharmed, hheld, Option.some.inj hafter⟩

end Session

end TransactionalHeap
