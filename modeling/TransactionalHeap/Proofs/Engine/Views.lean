import TransactionalHeap.Object.Stock
import TransactionalHeap.Proofs.Engine.Invariant
import TransactionalHeap.Proofs.Object.Stock

/-!
# What the transactions of a session see

`Core.observe` keeps the view of every transaction: a transaction begins on a snapshot with nothing
over it, and each of its operations does to its view what it ought to. Nothing that others do is in
it, be it commits, aborts or waiting. A transaction that acts has exactly this view
(`Session.shows_run`), and whichever way it gets at an object, it gets what the view shows
(`Session.sees_own_view`).
-/
namespace TransactionalHeap

section

variable [Transactables]

namespace Core

/-- What an action makes of the views of all transactions. -/
def observe (c : Core) (views : SortedMap TxnId View) : Action → SortedMap TxnId View
  | .begin => views.insert c.nextTransaction { base := c.head }
  | .beginAt v =>
    match c.head.asOf v with
    | .ok past =>
      if c.head.version < v then views else views.insert c.nextTransaction { base := past }
    | .error _ => views
  | .attach id o => views.modify id (View.perform (.attachTo ⟨c.nextHandle⟩ o))
  | .perform id op => views.modify id (View.perform op)
  | .wake id =>
    match c.calls.find? id with
    | some (.suspended _) => views.insert id { base := c.head }
    | some (.committing _) | some (.parked _) | none => views
  | .drop _ | .abort _ | .publish _ | .conclude _ | .park _ | .suspend _ => views

/-- The views are those of the active transactions that are in no call. -/
def Shows (c : Core) (views : SortedMap TxnId View) : Prop :=
  ∀ id t, c.held.find? id = some t → t.status = .active → c.calls.find? id = none →
    views.find? id = some t.toView

variable {good : Object → Prop} {c c' : Core} {views views' : SortedMap TxnId View}
  {id : TxnId} {t' : Transaction}

/-- One transaction is put in place, and nothing is different for the others. -/
theorem Shows.put (shows : c.Shows views) (held : c'.held = c.held.insert id t')
    (calls : ∀ other, other ≠ id → c'.calls.find? other = c.calls.find? other)
    (others : ∀ other, other ≠ id → views'.find? other = views.find? other)
    (own : t'.status = .active → c'.calls.find? id = none → views'.find? id = some t'.toView) :
    c'.Shows views' := by
  intro other u hu active free
  rw [held] at hu
  rcases SortedMap.find?_of_insert hu with ⟨rfl, rfl⟩ | ⟨hne, hu⟩
  · exact own active free
  · rw [calls other hne] at free
    rw [others other hne]
    exact shows other u hu active free

/-- An operation of one transaction, in whose view it is carried out. -/
theorem Shows.performed (shows : c.Shows views) (faithful : ∀ o, good o → o.Faithful)
    (sound : c.Sound good) {t : Transaction} (old : c.held.find? id = some t)
    (free : c.calls.find? id = none) {op : Op} (within : op.Within good)
    (held : c'.held = c.held.insert id (op.run.after t)) (calls : c'.calls = c.calls) :
    c'.Shows (views.modify id (View.perform op)) := by
  have hsound := (sound.held id t old).sound
  refine shows.put held (fun other _ => by rw [calls]) (fun other hne => ?_) fun active _ => ?_
  · exact SortedMap.find?_modify_of_ne views (View.perform op) hne
  · have hstatus : t.status = .active := by
      rw [(Transaction.performs_soundly within hsound).1] at active
      exact active
    have hview := shows id t old hstatus free
    have hperforms := Transaction.performs within hsound hstatus
    rw [SortedMap.find?_modify_self, hview, hperforms.view faithful]
    rfl

/-- An action that leaves the core as it is does nothing to the view of any transaction that
acts. -/
theorem Shows.refused (shows : c.Shows views) {a : Action} (mayRefuse : c.MayRefuse a) :
    c.Shows (c.observe views a) := by
  -- the views of transactions in a call, or of none, may well have changed
  have hmodify : ∀ {id : TxnId} (f : View → View),
      c.calls.find? id ≠ none ∨ c.held.find? id = none → c.Shows (views.modify id f) := by
    intro id f habsent other u hu active free
    have hne : other ≠ id := by
      rintro rfl
      rcases habsent with hcalling | hunknown
      · exact hcalling free
      · rw [hunknown] at hu
        cases hu
    rw [SortedMap.find?_modify_of_ne views f hne]
    exact shows other u hu active free
  cases a with
  | begin => exact absurd mayRefuse id
  | beginAt v =>
    have hstill : c.observe views (.beginAt v) = views := by
      rcases mayRefuse with hahead | ⟨fault, hmissing⟩
      · simp only [observe, hahead, if_true]
        split <;> rfl
      · simp only [observe, hmissing]
    rwa [hstill]
  | attach id o => exact hmodify _ (.inl mayRefuse)
  | perform id op => exact hmodify _ mayRefuse
  | wake id =>
    have hstill : c.observe views (.wake id) = views := by
      simp only [observe]
      split
      · next p hcall => exact absurd hcall (mayRefuse p)
      all_goals rfl
    rwa [hstill]
  | drop id | abort id | publish id | conclude id | park id | suspend id => exact shows

/-- One action keeps the views right. -/
theorem Moves.shows {a : Action} {log : Option Committed} (moves : Moves good c a log c')
    (faithful : ∀ o, good o → o.Faithful) (within : a.Within good) (sound : c.Sound good)
    (shows : c.Shows views) : c'.Shows (c.observe views a) := by
  cases moves with
  | nothing mayRefuse => exact shows.refused mayRefuse
  | @usedHandle id o absent =>
    intro other u hu active free
    have hne : other ≠ id := by
      rintro rfl
      rw [show c.held.find? other = some u from hu] at absent
      cases absent
    rw [observe, SortedMap.find?_modify_of_ne views _ hne]
    exact shows other u hu active free
  | @began a past which =>
    have hviews : c.observe views a = views.insert c.nextTransaction { base := past } := by
      rcases which with ⟨rfl, rfl⟩ | ⟨v, rfl, hahead, hfound⟩
      · rfl
      · simp only [observe, hfound, hahead, if_false]
    rw [hviews]
    refine shows.put rfl (fun _ _ => rfl) (fun other hne => ?_) fun _ _ => ?_
    · exact SortedMap.find?_insert_of_ne _ _ hne
    · rw [SortedMap.find?_insert_self]
      rfl
  | @dropped id t held free =>
    intro other u hu active hfree
    obtain ⟨-, hu⟩ := SortedMap.find?_of_erase hu
    exact shows other u hu active hfree
  | @performed id op t held free => exact shows.performed faithful sound held free within rfl rfl
  | @attached id o t held free => exact shows.performed faithful sound held free within rfl rfl
  | @ended a id t t' held which hasEnded =>
    have hviews : c.observe views a = views := by
      rcases which with rfl | rfl | rfl <;> rfl
    rw [hviews]
    refine shows.put rfl (fun other hne => ?_) (fun _ _ => rfl) fun active _ => ?_
    · exact SortedMap.find?_erase_of_ne _ hne
    · exact absurd active hasEnded.inactive
  | @published id t t' writes p held free active closed collected rest tSound due nonempty
      unconflicted version handles =>
    refine shows.put rfl (fun other hne => ?_) (fun _ _ => rfl) fun _ hfree => ?_
    · exact SortedMap.find?_insert_of_ne _ _ hne
    · rw [SortedMap.find?_insert_self] at hfree
      cases hfree
  | @parked id t p held active free =>
    intro other u hu uActive hfree
    have hne : other ≠ id := by
      rintro rfl
      rw [SortedMap.find?_insert_self] at hfree
      cases hfree
    rw [SortedMap.find?_insert_of_ne _ _ hne] at hfree
    exact shows other u hu uActive hfree
  | @suspended id t p held waiting =>
    refine shows.put rfl (fun other hne => ?_) (fun _ _ => rfl) fun _ hfree => ?_
    · exact SortedMap.find?_insert_of_ne _ _ hne
    · rw [SortedMap.find?_insert_self] at hfree
      cases hfree
  | @woken id t p held waiting =>
    obtain ⟨-, hempty⟩ := sound.calls_held held waiting
    obtain ⟨entries, frames⟩ := hempty p rfl
    have hviews : c.observe views (.wake id) = views.insert id { base := c.head } := by
      simp only [observe, waiting]
    rw [hviews]
    refine shows.put rfl (fun other hne => ?_) (fun other hne => ?_) fun _ _ => ?_
    · exact SortedMap.find?_erase_of_ne _ hne
    · exact SortedMap.find?_insert_of_ne _ _ hne
    · rw [SortedMap.find?_insert_self]
      simp only [Transaction.toView, entries, frames]
      rfl

end Core

namespace Session

/-- The views of all transactions after a run. -/
def views : List Action → Session → SortedMap TxnId View → SortedMap TxnId View
  | [], _, views => views
  | a :: later, s, views => Session.views later (s.step a) (s.core.observe views a)

/-- After every run of faithful objects the transactions have the views that were kept of them. -/
theorem shows_run {actions : List Action} {s : Session} {known : SortedMap TxnId View}
    (within : ∀ a ∈ actions, a.Within Object.Faithful) (sound : s.core.Sound Object.Faithful)
    (shows : s.core.Shows known) :
    (s.run actions).core.Shows (views actions s known) := by
  induction actions generalizing s known with
  | nil => exact shows
  | cons a later ih =>
    have hwithin := within a List.mem_cons_self
    have hmoves := moves sound a
    exact ih (fun b hb => within b (List.mem_cons_of_mem _ hb)) (hmoves.sound hwithin sound)
      (hmoves.shows (fun _ h => h) hwithin sound shows)

/-- Whatever a run of faithful objects has done, an active transaction has the view that is kept of
it. Every access at the type of what the view shows gives just that, the eager load where everything
reached from there is shown as well. What the view does not show is not in the snapshot either, and
every access says so. -/
theorem sees_own_view (config : Config) {actions : List Action}
    (within : ∀ a ∈ actions, a.Within Object.Faithful) {id : TxnId} {t : Transaction}
    (held : ((ofConfig config).run actions).engine.held.find? id = some t)
    (active : t.status = .active) (free : ((ofConfig config).run actions).calls.find? id = none) :
    ∃ view, (views actions (ofConfig config) ∅).find? id = some view ∧ view.base = t.snapshot ∧
      (∀ h o, view.value h = .ok o → ∀ access : Transaction.Access,
        (access = .load .eager → view.Opens h) → ((access.run o.type h).result t).1 = .ok o) ∧
      ∀ h fault, view.value h = .error fault →
        fault = .loadUncommitted h ∧ t.snapshot.read h = none ∧
        ∀ (access : Transaction.Access) (type : ObjectType),
          ((access.run type h).result t).1 = .error (.loadUncommitted h) := by
  have hsound := sound_run within (sound_ofConfig config)
  have htSound := (hsound.held id t held).sound
  have hnothing : (ofConfig config).core.Shows ∅ := by
    intro other u hu
    cases hu
  have hview := shows_run within (sound_ofConfig config) hnothing id t held active free
  refine ⟨t.toView, hview, rfl, fun h o hv access hopens => ?_, fun h fault hv => ?_⟩
  · obtain ⟨t', hrun⟩ := Transaction.access_of_value (fun _ h => h) htSound active hv access hopens
    exact Step.result_of_ok hrun
  · obtain ⟨hfault, -, -, hmissing⟩ :=
      Transaction.openEntry_of_no_value (fun _ h => h) htSound hv
    refine ⟨hfault, hmissing, fun access type => ?_⟩
    exact Step.result_of_error
      (Transaction.access_of_no_value (fun _ h => h) htSound active hv access type)

end Session

end

namespace Session

/-- Make the account of handle 1 hold the given amount. -/
def setBalance (amount : Int64) : Op := .update .account ⟨1⟩ fun _ => .ok (.account "ann" amount)

/-- A transaction changes an account in a branch, another one commits a change of its own, and the
branch is rolled back. -/
def rolledBack : List Action :=
  [.begin, .attach 1 (.account "ann" 10), .publish 1, .conclude 1,
    .begin, .perform 2 (setBalance 7), .perform 2 .startOr, .perform 2 (setBalance 3),
    .begin, .perform 3 (setBalance 99), .publish 3, .conclude 3, .perform 2 .endOrElse]

/-- The transaction sees what it had before the branch, and neither what the branch did nor the
other commit. -/
theorem sees_own_view_sample :
    ((ofConfig {}).run rolledBack).engine.store.heap.version = 2 ∧
    ∃ t, ((ofConfig {}).run rolledBack).engine.held.find? 2 = some t ∧
      (∀ access : Transaction.Access,
        ((access.run .account ⟨1⟩).result t).1 = .ok (.account "ann" 7)) ∧
      ∀ (access : Transaction.Access) (type : ObjectType),
        ((access.run type ⟨2⟩).result t).1 = .error (.loadUncommitted ⟨2⟩) := by
  have within : ∀ a ∈ rolledBack, a.Within Object.Faithful := by
    have hset : ∀ amount, (setBalance amount).Within Object.Faithful := by
      intro amount o o' _ ho'
      cases ho'
      exact Object.faithful_of_type_ne nofun
    have hnew : (Object.account "ann" 10).Faithful := rfl
    intro a ha
    simp only [rolledBack, List.mem_cons, List.not_mem_nil, or_false] at ha
    rcases ha with rfl | rfl | rfl | rfl | rfl | rfl | rfl | rfl | rfl | rfl | rfl | rfl | rfl
    all_goals first | trivial | exact hnew | exact hset _
  obtain ⟨t, held⟩ := Option.isSome_iff_exists.mp
    (by decide +kernel : (((ofConfig {}).run rolledBack).engine.held.find? 2).isSome = true)
  have hstatus : (((ofConfig {}).run rolledBack).engine.held.find? 2).map (·.status) =
      some .active := by decide +kernel
  have active : t.status = .active := by
    rw [held] at hstatus
    exact Option.some.inj hstatus
  have free : ((ofConfig {}).run rolledBack).calls.find? 2 = none := by rfl
  obtain ⟨view, hview, -, hseen, hunseen⟩ := sees_own_view {} within held active free
  have hone : view.value ⟨1⟩ = .ok (.account "ann" 7) := by
    have hvalue : ((views rolledBack (ofConfig {}) ∅).find? 2).map (·.value ⟨1⟩) =
        some (.ok (.account "ann" 7)) := by rfl
    rw [hview] at hvalue
    exact Option.some.inj hvalue
  have htwo : view.value ⟨2⟩ = .error (.loadUncommitted ⟨2⟩) := by
    have hvalue : ((views rolledBack (ofConfig {}) ∅).find? 2).map (·.value ⟨2⟩) =
        some (.error (.loadUncommitted ⟨2⟩)) := by rfl
    rw [hview] at hvalue
    exact Option.some.inj hvalue
  have hopens : view.Opens ⟨1⟩ := by
    have halone : ∀ h, view.Reaches ⟨1⟩ h → h = ⟨1⟩ := by
      intro h reached
      induction reached with
      | start => rfl
      | step _ seen isChild ih =>
        rw [ih, hone] at seen
        cases seen
        cases isChild
    intro h reached
    exact ⟨_, by rw [halone h reached]; exact hone⟩
  refine ⟨by rfl, t, held, fun access => ?_, fun access type => ?_⟩
  · exact hseen ⟨1⟩ _ hone access fun _ => hopens
  · exact (hunseen ⟨2⟩ _ htwo).2.2 access type

end Session

end TransactionalHeap
