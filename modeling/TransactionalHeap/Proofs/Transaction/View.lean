import TransactionalHeap.Proofs.SortedMap.Lookup
import TransactionalHeap.Proofs.Transaction.SoundEntry
import TransactionalHeap.Transaction

/-!
# The view of a transaction

What a transaction ought to see, without entries, statuses and flattened copies: a snapshot with the
transaction's own objects laid over it. Opening a branch keeps a copy of the overlay, and rolling
the branch back reinstates it.
-/
namespace TransactionalHeap

variable [Transactables]

/-- Objects that hide those of a snapshot. -/
abbrev Overlay := SortedMap Handle Object

/-- A snapshot, what lies over it, and a copy of that for every open branch, innermost first. -/
structure View where
  base : Snapshot
  overlay : Overlay := ∅
  saved : List Overlay := []

/-- The operations of a transaction on itself. An update is a write and then a change of the object
that it gave. -/
inductive Op where
  | read (type : ObjectType) (h : Handle)
  | write (type : ObjectType) (h : Handle)
  | update (type : ObjectType) (h : Handle) (change : Object → Except Error Object)
  | attachTo (h : Handle) (o : Object)
  | load (type : ObjectType) (h : Handle) (policy : ReadPolicy)
  | startOr
  | endOr
  | endOrElse
  | dropFrame

namespace View

/-- What is seen under a handle. -/
def value (v : View) (h : Handle) : Except Error Object :=
  match v.overlay.find? h with
  | some o => .ok o
  | none =>
    match v.base.read h with
    | some r => r.rebuild
    | none => .error (.loadUncommitted h)

/-- Lay what a change makes of the object over it, and the object itself where the change fails or
gives another type. -/
def change (type : ObjectType) (h : Handle) (f : Object → Except Error Object) (v : View) : View :=
  match (v.value h).bind (·.castTo type) with
  | .error _ => v
  | .ok o =>
    match (f o).bind (·.castTo type) with
    | .error _ => { v with overlay := v.overlay.insert h o }
    | .ok o' => { v with overlay := v.overlay.insert h o' }

/-- Lay a new object over a handle that the snapshot does not have. -/
def attachTo (h : Handle) (o : Object) (v : View) : View :=
  if v.base.contains h then v else { v with overlay := v.overlay.insert h o }

def startOr (v : View) : View := { v with saved := v.overlay :: v.saved }

def endOr (v : View) : View := { v with saved := v.saved.tail }

def endOrElse (v : View) : View :=
  match v.saved with
  | [] => v
  | overlay :: outer => { v with overlay, saved := outer }

/-- The view after an operation of an active transaction. -/
def perform : Op → View → View
  | .read .. | .load .. => id
  | .write type h => change type h .ok
  | .update type h f => change type h f
  | .attachTo h o => attachTo h o
  | .startOr => startOr
  | .endOr | .dropFrame => endOr
  | .endOrElse => endOrElse

/-- From one handle another one is reached along the references of what is seen. -/
inductive Reaches (v : View) (start : Handle) : Handle → Prop
  | start : Reaches v start start
  | step {h child : Handle} {o : Object} (reached : Reaches v start h) (seen : v.value h = .ok o)
      (isChild : child ∈ o.children) : Reaches v start child

/-- Everything that is reached from the handle is seen. -/
def Opens (v : View) (start : Handle) : Prop := ∀ h, v.Reaches start h → ∃ o, v.value h = .ok o

end View

/-- The objects that entries have buffered. -/
def Entries.overlay (entries : Entries) : Overlay := entries.filterMap fun _ e => e.buffered

/-- The objects that a branch would bring back. -/
def Frame.overlay (f : Frame) : Overlay := f.saved.filterMap fun _ saved => saved.buffered

theorem Entries.find?_overlay (entries : Entries) (h : Handle) :
    (Entries.overlay entries).find? h = (entries.find? h).bind Entry.buffered :=
  SortedMap.find?_filterMap _ _ _

theorem Frame.find?_overlay (f : Frame) (h : Handle) :
    f.overlay.find? h = (f.saved.find? h).bind SavedEntry.buffered :=
  SortedMap.find?_filterMap _ _ _

/-- Entries whose buffered object is what lies there already leave the overlay as it is. -/
theorem Entries.overlay_insert_of_eq {entries : Entries} {h : Handle} {e : Entry}
    (he : e.buffered = (entries.find? h).bind Entry.buffered) :
    Entries.overlay (entries.insert h e) = Entries.overlay entries := by
  apply SortedMap.ext_find?
  intro other
  rw [find?_overlay, find?_overlay, SortedMap.find?_insert]
  split
  · next hrank =>
    rw [← Ranked.rank_injective hrank]
    exact he
  · rfl

theorem Entries.overlay_insert {entries : Entries} {h : Handle} {e : Entry} {o : Object}
    (he : e.buffered = some o) :
    Entries.overlay (entries.insert h e) = (Entries.overlay entries).insert h o := by
  apply SortedMap.ext_find?
  intro other
  rw [find?_overlay, SortedMap.find?_insert, SortedMap.find?_insert, find?_overlay]
  split
  · exact he
  · rfl

namespace Transaction

/-- The view that a transaction's entries and branches amount to. -/
def toView (t : Transaction) : View where
  base := t.snapshot
  overlay := Entries.overlay t.entries
  saved := t.frames.map Frame.overlay

variable {t : Transaction} {h : Handle}

theorem value_of_buffered {o : Object} (ho : (t.entries.find? h).bind Entry.buffered = some o) :
    t.toView.value h = .ok o := by
  have hover : t.toView.overlay.find? h = some o := (Entries.find?_overlay t.entries h).trans ho
  rw [View.value, hover]

theorem value_of_stored {r : Record} (clean : (t.entries.find? h).bind Entry.buffered = none)
    (stored : t.snapshot.read h = some r) : t.toView.value h = r.rebuild := by
  have hover : t.toView.overlay.find? h = none := (Entries.find?_overlay t.entries h).trans clean
  have hread : t.toView.base.read h = some r := stored
  simp only [View.value, hover, hread]

theorem value_of_missing (clean : (t.entries.find? h).bind Entry.buffered = none)
    (missing : t.snapshot.read h = none) : t.toView.value h = .error (.loadUncommitted h) := by
  have hover : t.toView.overlay.find? h = none := (Entries.find?_overlay t.entries h).trans clean
  have hread : t.toView.base.read h = none := missing
  simp only [View.value, hover, hread]

end Transaction

/-- An operation as a step, its result aside. -/
def Op.run : Op → Step Transaction Unit
  | .read type h => discard (Transaction.read type h)
  | .write type h => discard (Transaction.write type h)
  | .update type h f => discard (Transaction.update type h f)
  | .attachTo h o => Transaction.attachTo h o
  | .load type h policy => discard (Transaction.load type h policy)
  | .startOr => Transaction.startOr
  | .endOr => Transaction.endOr
  | .endOrElse => Transaction.endOrElse
  | .dropFrame => Transaction.dropFrame

/-- An operation that brings in good objects only. -/
def Op.Within (good : Object → Prop) : Op → Prop
  | .update _ _ f => ∀ o o', good o → f o = .ok o' → good o'
  | .attachTo _ o => good o
  | .read .. | .write .. | .load .. | .startOr | .endOr | .endOrElse | .dropFrame => True

end TransactionalHeap
