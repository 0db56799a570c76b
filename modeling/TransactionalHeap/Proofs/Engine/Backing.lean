import TransactionalHeap.Proofs.Engine.Invariant
import TransactionalHeap.Proofs.Transaction.Backing

/-!
# Every transaction of a session is backed

Whatever a session does, a transaction that has not been opened for a change shows what its records
rebuild to (`Session.backed_reached`). The objects of the session need not survive flattening for that.

A commit is the exception while it is under way. It counts an object as unchanged that was opened for a
change and flattens to what the record has, and such an object may still be another one than the record
rebuilds to.
-/
namespace TransactionalHeap

variable [Transactables]

namespace Core

/-- Nobody is in the middle of committing the transaction. -/
def Unpublished (c : Core) (id : TxnId) : Prop := ∀ p, c.calls.find? id ≠ some (.committing p)

/-- All transactions outside of commits of theirs are backed. -/
def Backed (c : Core) : Prop := ∀ id t, c.held.find? id = some t → c.Unpublished id → t.Backed

variable {good : Object → Prop} {c c' : Core} {id : TxnId} {t t' : Transaction}

theorem unpublished_of_free (free : c.calls.find? id = none) : c.Unpublished id := by
  intro p committing
  cases free.symm.trans committing

theorem Backed.put (backed : c.Backed) (ht' : c'.Unpublished id → t'.Backed)
    (held : c'.held = c.held.insert id t')
    (others : ∀ other, other ≠ id → c'.calls.find? other = c.calls.find? other) : c'.Backed := by
  intro other u hu unpublished
  rw [held] at hu
  rcases SortedMap.find?_of_insert hu with ⟨rfl, rfl⟩ | ⟨hne, hu⟩
  · exact ht' unpublished
  · refine backed other u hu fun p => ?_
    rw [← others other hne]
    exact unpublished p

/-- One action keeps it so. -/
theorem Moves.backed {a : Action} {log : Option Committed} (moves : Moves good c a log c')
    (sound : c.Sound good) (backed : c.Backed) : c'.Backed := by
  cases moves with
  | nothing mayRefuse => exact backed
  | usedHandle absent => exact backed
  | began which => exact backed.put (fun _ => Transaction.backed_of_empty rfl) rfl fun _ _ => rfl
  | dropped held free =>
    intro other u hu unpublished
    exact backed other u (SortedMap.find?_of_erase hu).2 unpublished
  | @performed id op t held free =>
    have hbacked := backed id t held (unpublished_of_free free)
    exact backed.put (fun _ => hbacked.perform (sound.held id t held).sound op) rfl fun _ _ => rfl
  | @attached id o t held free =>
    have hbacked := backed id t held (unpublished_of_free free)
    exact backed.put (fun _ => hbacked.perform (sound.held id t held).sound _) rfl fun _ _ => rfl
  | ended held which hasEnded =>
    exact backed.put (fun _ => Transaction.backed_of_empty hasEnded.entries) rfl fun other hne =>
      SortedMap.find?_erase_of_ne _ hne
  | @published id t t' writes p held free active closed collected rest tSound due nonempty
      unconflicted version handles =>
    refine backed.put (fun unpublished => ?_) rfl fun other hne => SortedMap.find?_insert_of_ne _ _ hne
    exact absurd (SortedMap.find?_insert_self _ _ _) (unpublished p)
  | @parked id t p held active free =>
    intro other u hu unpublished
    by_cases hsame : other = id
    · subst hsame
      exact backed other u hu (unpublished_of_free free)
    · refine backed other u hu fun q => ?_
      rw [← SortedMap.find?_insert_of_ne c.calls (.parked p) hsame]
      exact unpublished q
  | suspended held waiting =>
    exact backed.put (fun _ => Transaction.backed_of_empty rfl) rfl fun other hne =>
      SortedMap.find?_insert_of_ne _ _ hne
  | @woken id t p held waiting =>
    obtain ⟨u, hu, calls⟩ := sound.calls id _ waiting
    obtain rfl : t = u := Option.some.inj (held.symm.trans hu)
    have hwoken : Transaction.Backed { t with
        snapshot := c.head, liveVersion := some c.head.version } :=
      Transaction.backed_of_empty (calls.empty p rfl).1
    exact backed.put (fun _ => hwoken) rfl fun other hne => SortedMap.find?_erase_of_ne _ hne

end Core

/-- After every run. -/
theorem Session.backed_reached (config : Config) (actions : List Action) :
    ((ofConfig config).run actions).core.Backed := by
  have hnothing : (ofConfig config).core.Backed := by
    intro id t held
    cases held
  exact kept_run (P := fun s => s.core.Backed)
    (fun s a log s' heffect _ sound backed => (heffect.moves sound).backed sound backed)
    (fun a _ => a.within_any) (sound_ofConfig config) hnothing

end TransactionalHeap
