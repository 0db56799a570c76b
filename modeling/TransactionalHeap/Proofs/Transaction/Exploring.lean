import TransactionalHeap.Proofs.Transaction.Loading
import TransactionalHeap.Proofs.Transaction.Rebuilding

/-!
# Loading a graph

An eager load opens everything that is reached from an object. It keeps a stack of what is still to be
visited, on which an object may lie more than once, and comes to an end on any graph: every object is
visited once. What it leaves is exactly what is reached, opened, or a fault of an object that is reached
and cannot be opened (`Transaction.loadReachable_explores`).

The load counts down what it has not visited. The same walk can be told as a loop that adds up what it
has seen (`GraphWalk`), and this loop ends as the load does (`Transaction.ends_loadReachable`).
-/
namespace TransactionalHeap

variable [Transactables]

/-- A set that has the start, and with everything all its children, has all that is reached. -/
theorem View.Reaches.mem_of_closed {v : View} {start h : Handle} (reached : v.Reaches start h)
    {closed : List Handle} (hstart : start ∈ closed)
    (hclosed : ∀ x ∈ closed, ∀ o, v.value x = .ok o → ∀ child ∈ o.children, child ∈ closed) :
    h ∈ closed := by
  induction reached with
  | start => exact hstart
  | step _ seen isChild ih => exact hclosed _ ih _ seen _ isChild

/-- The graph walk as a loop: the transaction, what was visited, and the stack of what is still to be
visited. -/
structure GraphWalk where
  txn : Transaction
  seen : List Handle
  pending : List Handle

namespace GraphWalk

/-- One turn of the loop: take the next object off the stack. If it was not visited before, open it and
put its children on the stack, but for those that were visited. The loop ends where the stack is empty,
and where an object cannot be opened. -/
def turn (w : GraphWalk) : GraphWalk ⊕ EStateM.Result Error Transaction Unit :=
  match w.pending with
  | [] => .inr (.ok () w.txn)
  | h :: pending =>
    if h ∈ w.seen then .inl { w with pending }
    else match Transaction.openEntry h w.txn with
      | .error fault txn => .inr (.error fault txn)
      | .ok e txn =>
        match e.live with
        | .error fault => .inr (.error fault txn)
        | .ok o =>
          let seen := h :: w.seen
          .inl ⟨txn, seen, (o.children.filter (· ∉ seen)).reverse ++ pending⟩

/-- The loop ends so after finitely many turns. -/
inductive Ends : GraphWalk → EStateM.Result Error Transaction Unit → Prop
  | now {w : GraphWalk} {result : EStateM.Result Error Transaction Unit} (ended : w.turn = .inr result) :
      Ends w result
  | later {w w' : GraphWalk} {result : EStateM.Result Error Transaction Unit} (turned : w.turn = .inl w')
      (ends : Ends w' result) : Ends w result

variable {t : Transaction} {seen skipped pending : List Handle}
  {result : EStateM.Result Error Transaction Unit}

/-- What was visited is passed over. -/
theorem Ends.skip (visited : ∀ h ∈ skipped, h ∈ seen) (ends : Ends ⟨t, seen, pending⟩ result) :
    Ends ⟨t, seen, skipped ++ pending⟩ result := by
  induction skipped with
  | nil => exact ends
  | cons h skipped ih =>
    refine .later ?_ (ih fun other hother => visited other (List.mem_cons_of_mem _ hother))
    exact if_pos (visited h List.mem_cons_self)

theorem turn_of_opened {t' : Transaction} {h : Handle} {e : Entry} {o : Object} (unseen : h ∉ seen)
    (hopen : Transaction.openEntry h t = .ok e t') (hlive : e.live = .ok o) :
    turn ⟨t, seen, h :: pending⟩ =
      .inl ⟨t', h :: seen, (o.children.filter (· ∉ h :: seen)).reverse ++ pending⟩ := by
  simp only [turn, if_neg unseen, hopen, hlive]

theorem turn_of_fault {t' : Transaction} {h : Handle} {fault : Error} (unseen : h ∉ seen)
    (hopen : Transaction.openEntry h t = .error fault t') :
    turn ⟨t, seen, h :: pending⟩ = .inr (.error fault t') := by
  simp only [turn, if_neg unseen, hopen]

omit [Transactables] in
/-- Stacks that differ in what was visited still do so after one more visit. -/
theorem filter_unseen_cons {stack : List Handle} (h : Handle)
    (same : pending.filter (· ∉ seen) = stack.filter (· ∉ seen)) :
    pending.filter (· ∉ h :: seen) = stack.filter (· ∉ h :: seen) := by
  have hless : ∀ l : List Handle, l.filter (· ∉ h :: seen) = (l.filter (· ∉ seen)).filter (· ≠ h) := by
    intro l
    rw [List.filter_filter]
    congr 1
    funext x
    simp
  rw [hless, hless, same]

omit [Transactables] in
/-- An object that was not visited comes up once what was visited has been passed over. -/
theorem exists_skipped {h : Handle} {later : List Handle} (unseen : h ∉ seen)
    (same : pending.filter (· ∉ seen) = (h :: later).filter (· ∉ seen)) :
    ∃ skipped rest, pending = skipped ++ h :: rest ∧ (∀ x ∈ skipped, x ∈ seen) ∧
      rest.filter (· ∉ seen) = later.filter (· ∉ seen) := by
  rw [List.filter_cons_of_pos (by simpa using unseen)] at same
  obtain ⟨skipped, rest, hsplit, hskipped, -, hrest⟩ := List.filter_eq_cons_iff.mp same
  exact ⟨skipped, rest, hsplit, fun x hx => by simpa using hskipped x hx, hrest⟩

end GraphWalk

namespace Transaction

variable {good : Object → Prop} {t₀ t t' : Transaction} {root h : Handle} {o : Object}

/-- What an eager load may do: it loads, and only what is reached. -/
structure LoadsWithin (good : Object → Prop) (root : Handle) (t t' : Transaction) : Prop where
  loads : Loads good t t'
  others : ∀ h, ¬ t.toView.Reaches root h → t'.entries.find? h = t.entries.find? h

theorem LoadsWithin.put (within : LoadsWithin good root t₀ t) {e : Entry}
    (loads : Loads good t (t.put h e)) (reached : t₀.toView.Reaches root h) :
    LoadsWithin good root t₀ (t.put h e) where
  loads := within.loads.trans loads
  others other unreached := by
    have hne : other ≠ h := fun hsame => unreached (hsame ▸ reached)
    exact (SortedMap.find?_insert_of_ne _ _ hne).trans (within.others other unreached)

/-- How far a load has come that began with `t₀`: what it has visited is opened and has its children
visited or on the stack, and what waits to be visited is all there is besides. -/
structure Exploring (good : Object → Prop) (root : Handle) (t₀ t : Transaction)
    (unvisited seen stack : List Handle) : Prop where
  within : LoadsWithin good root t₀ t
  backed : t.Backed
  reached : ∀ h, h ∈ seen ∨ h ∈ stack → t₀.toView.Reaches root h
  started : root ∈ seen ∨ root ∈ stack
  opened : ∀ h ∈ seen, ∃ e o, t.entries.find? h = some e ∧ e.object = some o ∧
    t₀.toView.value h = .ok o ∧ ∀ child ∈ o.children, child ∈ seen ∨ child ∈ stack
  distinct : unvisited.Nodup
  waiting : ∀ h ∈ unvisited, h ∉ seen
  missing : ∀ h, h ∉ unvisited → h ∉ seen → t.entries.find? h = none ∧ t.snapshot.read h = none

namespace Exploring

variable {unvisited seen pending : List Handle}

theorem start (sound : t.Sound good) (backed : t.Backed) (root : Handle) :
    Exploring good root t t t.available [] [root] where
  within := ⟨.refl sound, fun _ _ => rfl⟩
  backed := backed
  reached h hmem := by
    rcases hmem with hmem | hmem
    · cases hmem
    · rw [List.mem_singleton.mp hmem]
      exact .start
  started := .inr List.mem_cons_self
  opened := nofun
  distinct := Handle.nodup_sortDistinct _
  waiting h _ := List.not_mem_nil
  missing _ absent _ := absent_of_not_available absent

/-- The next object on the stack was visited before. -/
theorem skip (exploring : Exploring good root t₀ t unvisited seen (h :: pending)) (visited : h ∈ seen) :
    Exploring good root t₀ t unvisited seen pending := by
  have hstill : ∀ other, other ∈ seen ∨ other ∈ h :: pending ↔ other ∈ seen ∨ other ∈ pending := by
    intro other
    rw [List.mem_cons]
    constructor
    · rintro (hseen | rfl | hpending)
      · exact .inl hseen
      · exact .inl visited
      · exact .inr hpending
    · exact Or.imp_right .inr
  refine { exploring with
    reached := fun other hother => exploring.reached other ((hstill other).mpr hother)
    started := (hstill root).mp exploring.started
    opened := fun other hother => ?_ }
  obtain ⟨e, o, he, ho, hvalue, hchildren⟩ := exploring.opened other hother
  exact ⟨e, o, he, ho, hvalue, fun child hchild => (hstill child).mp (hchildren child hchild)⟩

/-- The next object is visited and opens, so its children are to be visited. -/
theorem expand {e : Entry} (exploring : Exploring good root t₀ t unvisited seen (h :: pending))
    (unseen : h ∈ unvisited) (hvalue : t₀.toView.value h = .ok o)
    (hopen : openEntry h t = .ok e (t.put h e)) (hloads : Loads good t (t.put h e))
    (ho : e.object = some o) :
    Exploring good root t₀ (t.put h e) (unvisited.erase h) (h :: seen)
      (o.children.reverse ++ pending) := by
  have hreached : t₀.toView.Reaches root h := exploring.reached h (.inr List.mem_cons_self)
  have hmem : ∀ other, other ∈ h :: seen ∨ other ∈ o.children.reverse ++ pending ↔
      (other ∈ seen ∨ other ∈ h :: pending) ∨ other ∈ o.children := by
    intro other
    simp only [List.mem_cons, List.mem_append, List.mem_reverse]
    grind
  refine {
    within := exploring.within.put hloads hreached
    backed := ?_
    reached := fun other hother => ?_
    started := (hmem root).mpr (.inl exploring.started)
    opened := fun other hother => ?_
    distinct := exploring.distinct.erase h
    waiting := fun other hother => ?_
    missing := fun other hvisited hunseen => ?_ }
  · exact exploring.backed.loads hloads
  · rcases (hmem other).mp hother with hold | hchild
    · exact exploring.reached other hold
    · exact .step hreached hvalue hchild
  · rcases List.mem_cons.mp hother with rfl | hother
    · exact ⟨e, o, find?_put_self, ho, hvalue, fun child hchild => (hmem child).mpr (.inr hchild)⟩
    · have hne : other ≠ h := fun hsame => exploring.waiting h unseen (hsame ▸ hother)
      obtain ⟨old, o', hold, ho', hvalue', hchildren⟩ := exploring.opened other hother
      exact ⟨old, o', (SortedMap.find?_insert_of_ne _ _ hne).trans hold, ho', hvalue',
        fun child hchild => (hmem child).mpr (.inl (hchildren child hchild))⟩
  · obtain ⟨hne, hother⟩ := (exploring.distinct.mem_erase_iff).mp hother
    rw [List.mem_cons, not_or]
    exact ⟨hne, exploring.waiting other hother⟩
  · rw [List.mem_cons, not_or] at hunseen
    obtain ⟨habsent, hmissing⟩ := exploring.missing other
      (fun hmem => hvisited (exploring.distinct.mem_erase_iff.mpr ⟨hunseen.1, hmem⟩)) hunseen.2
    exact ⟨(SortedMap.find?_insert_of_ne _ _ hunseen.1).trans habsent, hmissing⟩

/-- The next object is visited: it is opened, or it cannot be. -/
theorem visit (exploring : Exploring good root t₀ t unvisited seen (h :: pending))
    (unseen : h ∈ unvisited) :
    (∃ e o, openEntry h t = .ok e (t.put h e) ∧ e.live = .ok o ∧
      Exploring good root t₀ (t.put h e) (unvisited.erase h) (h :: seen) (o.children.reverse ++ pending)) ∨
    ∃ fault t', openEntry h t = .error fault t' ∧ t₀.toView.value h = .error fault ∧
      LoadsWithin good root t₀ t' := by
  have hview : t.toView = t₀.toView := exploring.within.loads.toView_eq
  rcases exploring.backed.openEntry_cases exploring.within.loads.sound h with
    ⟨e, o, hvalue, hopen, hloads, ho⟩ | ⟨fault, t', hvalue, hopen, hloads, hput⟩
  · rw [hview] at hvalue
    exact .inl ⟨e, o, hopen, Entry.live_of_object ho,
      exploring.expand unseen hvalue hopen hloads ho⟩
  · rw [hview] at hvalue
    refine .inr ⟨fault, t', hopen, hvalue, ?_⟩
    rcases hput with rfl | ⟨r, rfl⟩
    · exact exploring.within
    · exact exploring.within.put hloads (exploring.reached h (.inr List.mem_cons_self))

/-- What was visited has an entry. -/
theorem contains_of_seen {stack : List Handle} (exploring : Exploring good root t₀ t unvisited seen stack)
    (visited : h ∈ seen) : t.entries.contains h = true := by
  obtain ⟨e, -, he, -⟩ := exploring.opened h visited
  exact SortedMap.contains_iff.mpr ⟨e, he⟩

/-- What neither was nor will be visited cannot be opened. -/
theorem absent {stack : List Handle} (exploring : Exploring good root t₀ t unvisited seen stack)
    (hvisited : h ∉ unvisited) (hunseen : h ∉ seen) :
    t.entries.find? h = none ∧ openEntry h t = .error (.loadUncommitted h) t ∧
      t₀.toView.value h = .error (.loadUncommitted h) := by
  obtain ⟨habsent, hmissing⟩ := exploring.missing h hvisited hunseen
  refine ⟨habsent, bind_of_error (entry_of_missing habsent hmissing), ?_⟩
  rw [← exploring.within.loads.toView_eq]
  exact value_of_missing (by rw [habsent]; rfl) hmissing

/-- With nothing left on the stack all that is reached was visited. -/
theorem reached_iff (exploring : Exploring good root t₀ t unvisited seen []) :
    t₀.toView.Reaches root h ↔ h ∈ seen := by
  have hseen : ∀ other, other ∈ seen ∨ other ∈ [] ↔ other ∈ seen := by simp
  refine ⟨fun reached => ?_, fun hmem => exploring.reached h (.inl hmem)⟩
  refine reached.mem_of_closed ((hseen root).mp exploring.started) fun x hx o hvalue child hchild => ?_
  obtain ⟨e, o', -, -, hvalue', hchildren⟩ := exploring.opened x hx
  cases hvalue'.symm.trans hvalue
  exact (hseen child).mp (hchildren child hchild)

end Exploring

/-- From wherever an eager load has come it ends with all visited that is reached, or with an object that
is reached and cannot be opened. -/
theorem loadReachable_explores {unvisited stack seen : List Handle}
    (exploring : Exploring good root t₀ t unvisited seen stack) :
    (∃ t' left visited, loadReachable unvisited stack t = .ok () t' ∧
      Exploring good root t₀ t' left visited []) ∨
    ∃ h fault t', loadReachable unvisited stack t = .error fault t' ∧ t₀.toView.Reaches root h ∧
      t₀.toView.value h = .error fault ∧ LoadsWithin good root t₀ t' := by
  induction unvisited, stack using Transaction.loadReachable.induct generalizing t seen with
  | case1 unvisited => exact .inl ⟨t, unvisited, seen, loadReachable_nil, exploring⟩
  | case2 unvisited h pending hmem ih =>
    rcases exploring.visit hmem with ⟨e, o, hopen, hlive, hnext⟩ | ⟨fault, t', hopen, hvalue, hwithin⟩
    · rw [loadReachable_of_opened hmem hopen hlive]
      exact ih o hnext
    · exact .inr ⟨h, fault, t', loadReachable_of_fault hmem hopen,
        exploring.reached h (.inr List.mem_cons_self), hvalue, hwithin⟩
  | case3 unvisited h pending hmem ih =>
    rw [loadReachable_of_not_mem hmem]
    by_cases hseen : h ∈ seen
    · rw [if_pos (exploring.contains_of_seen hseen)]
      exact ih (exploring.skip hseen)
    · obtain ⟨habsent, -, hvalue⟩ := exploring.absent hmem hseen
      rw [if_neg (by simp [SortedMap.contains, habsent])]
      exact .inr ⟨h, _, t, rfl, exploring.reached h (.inr List.mem_cons_self), hvalue, exploring.within⟩

/-- The loop that adds up what it has seen ends as the load does. Its stack may differ in what was
visited, which either passes over. -/
theorem ends_loadReachable {unvisited stack seen : List Handle}
    (exploring : Exploring good root t₀ t unvisited seen stack) {pending : List Handle}
    (same : pending.filter (· ∉ seen) = stack.filter (· ∉ seen)) :
    GraphWalk.Ends ⟨t, seen, pending⟩ (loadReachable unvisited stack t) := by
  induction unvisited, stack using Transaction.loadReachable.induct generalizing t seen pending with
  | case1 unvisited =>
    have hvisited : ∀ x ∈ pending, x ∈ seen := by
      simpa using same
    rw [loadReachable_nil, ← List.append_nil pending]
    exact .skip hvisited (.now rfl)
  | case2 unvisited h later hmem ih =>
    have hunseen := exploring.waiting h hmem
    obtain ⟨skipped, rest, rfl, hskipped, hrest⟩ := GraphWalk.exists_skipped hunseen same
    apply GraphWalk.Ends.skip hskipped
    rcases exploring.visit hmem with ⟨e, o, hopen, hlive, hnext⟩ | ⟨fault, t', hopen, -, -⟩
    · rw [loadReachable_of_opened hmem hopen hlive]
      refine .later (GraphWalk.turn_of_opened hunseen hopen hlive) (ih o hnext ?_)
      rw [List.filter_append, List.filter_append, ← List.filter_reverse, List.filter_filter,
        GraphWalk.filter_unseen_cons h hrest]
      simp only [Bool.and_self]
    · rw [loadReachable_of_fault hmem hopen]
      exact .now (GraphWalk.turn_of_fault hunseen hopen)
  | case3 unvisited h later hmem ih =>
    rw [loadReachable_of_not_mem hmem]
    by_cases hseen : h ∈ seen
    · rw [if_pos (exploring.contains_of_seen hseen)]
      refine ih (exploring.skip hseen) ?_
      rw [same, List.filter_cons_of_neg (by simpa using hseen)]
    · obtain ⟨habsent, hopen, -⟩ := exploring.absent hmem hseen
      obtain ⟨skipped, rest, rfl, hskipped, -⟩ := GraphWalk.exists_skipped hseen same
      rw [if_neg (by simp [SortedMap.contains, habsent])]
      exact .skip hskipped (.now (GraphWalk.turn_of_fault hseen hopen))

/-! ## The load as a whole -/

/-- Everything that is reached has an entry, with the object that the view shows. -/
def Explored (root : Handle) (t t' : Transaction) : Prop :=
  ∀ h, t.toView.Reaches root h →
    ∃ e o, t'.entries.find? h = some e ∧ e.object = some o ∧ t.toView.value h = .ok o

/-- An eager load in a sound transaction: where everything that is reached can be opened it is opened,
and then the object has to be of the type. Otherwise the load fails as one of these does that cannot. -/
theorem Sound.load_eager (sound : t.Sound good) (backed : t.Backed) (active : t.status = .active)
    (root : Handle) :
    (t.toView.Opens root ∧ ∃ o t', t.toView.value root = .ok o ∧ Explored root t t' ∧
      LoadsWithin good root t t' ∧
      ∀ type, load type root .eager t = if o.type = type then .ok (.tracked type root) t'
        else .error (.wrongType type.name o.type.name) t') ∨
    (¬ t.toView.Opens root ∧ ∃ h fault t', t.toView.Reaches root h ∧
      t.toView.value h = .error fault ∧ LoadsWithin good root t t' ∧
      ∀ type, load type root .eager t = .error fault t') := by
  rcases loadReachable_explores (.start sound backed root) with
    ⟨t', left, visited, hrun, exploring⟩ | ⟨h, fault, t', hrun, reached, hvalue, within⟩
  · have hexplored : Explored root t t' := fun h reached => by
      obtain ⟨e, o, he, ho, hvalue, -⟩ := exploring.opened h (exploring.reached_iff.mp reached)
      exact ⟨e, o, he, ho, hvalue⟩
    have hopens : t.toView.Opens root := fun h reached => by
      obtain ⟨-, o, -, -, hvalue⟩ := hexplored h reached
      exact ⟨o, hvalue⟩
    obtain ⟨e, o, he, ho, hvalue⟩ := hexplored root .start
    exact .inl ⟨hopens, o, t', hvalue, hexplored, exploring.within,
      load_eager_of_ok active hrun he ho⟩
  · refine .inr ⟨fun opens => ?_, h, fault, t', reached, hvalue, within,
      load_eager_of_fault active hrun⟩
    obtain ⟨o, hshown⟩ := opens h reached
    cases hvalue.symm.trans hshown

/-- The loop that adds up what it has seen ends, and as the load does. -/
theorem Sound.walk_ends (sound : t.Sound good) (backed : t.Backed) (root : Handle) :
    GraphWalk.Ends ⟨t, [], [root]⟩ (loadReachable t.available [root] t) :=
  ends_loadReachable (.start sound backed root) rfl

end Transaction

end TransactionalHeap
