import TransactionalHeap.Proofs.Transaction.Opening

/-!
# Reading and loading

What opening an object keeps, reading and loading keep under every policy. So they only load
(`OnlyLoads`). An eager load opens one object after the other.
-/
namespace TransactionalHeap

variable [Transactables]

namespace Transaction

variable {good : Object → Prop} {t t' : Transaction} {h : Handle} {e : Entry} {o : Object}

/-! ## What loading keeps -/

section Keeping

variable {P : Transaction → Prop}

theorem keeps_ensureActive : Step.Keeps P ensureActive := .still fun t => by
  cases hstatus : t.status <;>
    simp only [Step.after, Step.result, EStateM.run, ensureActive, hstatus]

variable (opens : ∀ h, Step.Keeps P (openEntry h))
include opens

/-- What opening an object keeps, reading one does. -/
theorem keeps_read (type : ObjectType) (h : Handle) : Step.Keeps P (read type h) :=
  keeps_ensureActive.bind fun _ => (opens h).bind fun _ => .ofExcept _

theorem keeps_loadReachable (unvisited stack : List Handle) :
    Step.Keeps P (loadReachable unvisited stack) := by
  induction unvisited, stack using Transaction.loadReachable.induct with
  | case1 unvisited =>
    rw [loadReachable]
    exact .pure ()
  | case2 unvisited h pending hmem ih =>
    rw [loadReachable, if_pos hmem]
    exact (opens h).bind fun e => (Step.Keeps.ofExcept e.live).bind fun o => ih o
  | case3 unvisited h pending hmem ih =>
    rw [loadReachable, if_neg hmem]
    refine Step.Keeps.get.bind fun t => ?_
    split
    · exact ih
    · exact .fail _

/-- And so does loading under any policy, if finding an entry keeps it. -/
theorem keeps_load (finds : ∀ h, Step.Keeps P (entry h)) (type : ObjectType) (h : Handle)
    (policy : ReadPolicy) : Step.Keeps P (load type h policy) := by
  refine keeps_ensureActive.bind fun _ => ?_
  cases policy with
  | eager =>
    refine Step.Keeps.get.bind fun t => (keeps_loadReachable opens _ _).bind fun _ =>
      Step.Keeps.get.bind fun t' => ?_
    split
    · exact .fail _
    · exact (Step.Keeps.ofExcept _).discard.bind fun _ => .pure _
  | lazy =>
    refine (finds h).bind fun e => ?_
    split
    · split
      · exact .pure _
      · exact .fail _
    · exact .pure _
  | unmanaged =>
    refine Step.Keeps.get.bind fun t => ?_
    split
    · exact (Step.Keeps.ofExcept _).bind fun _ => (Step.Keeps.ofExcept _).bind fun _ => .pure _
    · split
      · exact .fail _
      · exact (Step.Keeps.ofExcept _).bind fun _ => .pure _

end Keeping

/-! ## Steps that only load -/

/-- Whichever way the step ends, it has done no more than load. -/
def OnlyLoads {α : Type} (good : Object → Prop) (step : Step Transaction α) : Prop :=
  ∀ t, t.Sound good → Loads good t (step.after t)

namespace OnlyLoads

variable {α : Type} {step : Step Transaction α}

/-- After what was no more than loading it still is. -/
theorem keeps (loads : OnlyLoads good step) (t₀ : Transaction) : Step.Keeps (Loads good t₀) step :=
  fun t before => before.trans (loads t before.sound)

theorem of_keeps (keeps : ∀ t₀, Step.Keeps (Loads good t₀) step) : OnlyLoads good step :=
  fun t sound => keeps t t (.refl sound)

theorem entry (h : Handle) : OnlyLoads good (entry h) := by
  intro t sound
  cases hfound : t.entries.find? h with
  | some e =>
    rw [Step.after_of_ok (entry_of_find? hfound)]
    exact .refl sound
  | none =>
    cases hread : t.snapshot.read h with
    | none =>
      rw [Step.after_of_error (entry_of_missing hfound hread)]
      exact .refl sound
    | some r =>
      rw [Step.after_of_ok (entry_of_read hfound hread)]
      refine .put sound (.deferred sound.stores hread)
        (.inr ⟨rfl, Entry.backed_deferred r, fun old hold => ?_⟩)
      rw [hfound] at hold
      cases hold

theorem openEntry (h : Handle) : OnlyLoads good (openEntry h) := fun _ sound =>
  loads_openEntry sound h

theorem read (type : ObjectType) (h : Handle) : OnlyLoads good (read type h) :=
  of_keeps fun t₀ => keeps_read (fun h => (openEntry h).keeps t₀) type h

theorem loadReachable (unvisited stack : List Handle) :
    OnlyLoads good (loadReachable unvisited stack) :=
  of_keeps fun t₀ => keeps_loadReachable (fun h => (openEntry h).keeps t₀) unvisited stack

theorem load (type : ObjectType) (h : Handle) (policy : ReadPolicy) :
    OnlyLoads good (load type h policy) :=
  of_keeps fun t₀ => keeps_load (fun h => (openEntry h).keeps t₀) (fun h => (entry h).keeps t₀)
    type h policy

end OnlyLoads

theorem ensureActive_eq (active : t.status = .active) : ensureActive t = .ok () t := by
  simp only [ensureActive, active]

/-- An active transaction goes on behind the check. -/
theorem guarded_eq {α : Type} (active : t.status = .active) (rest : Step Transaction α) :
    (ensureActive >>= fun _ => rest) t = rest t :=
  bind_of_ok (ensureActive_eq active)

/-- What is not available to a load is neither tracked nor stored. -/
theorem absent_of_not_available (absent : h ∉ t.available) :
    t.entries.find? h = none ∧ t.snapshot.read h = none := by
  rw [available, Handle.mem_sortDistinct, List.mem_append, not_or] at absent
  constructor
  · refine Option.eq_none_iff_forall_ne_some.mpr fun e he => ?_
    exact absent.1 (SortedMap.mem_keys_iff.mpr ⟨e, he⟩)
  · refine Option.eq_none_iff_forall_ne_some.mpr fun r stored => ?_
    obtain ⟨cell, hcell, -⟩ := Option.map_eq_some_iff.mp stored
    obtain ⟨hmem, hhandle⟩ := Tree.mem_cells_of_find hcell
    exact absent.2 (List.mem_map.mpr ⟨cell, hmem, hhandle⟩)

/-! ## How an eager load goes -/

section Visit

variable {unvisited pending : List Handle}

theorem loadReachable_nil : loadReachable unvisited [] t = .ok () t := by
  rw [loadReachable]
  rfl

/-- An object that is visited is opened, and its children are visited next. -/
theorem loadReachable_of_opened (unseen : h ∈ unvisited) (hopen : openEntry h t = .ok e t')
    (hlive : e.live = .ok o) : loadReachable unvisited (h :: pending) t =
      loadReachable (unvisited.erase h) (o.children.reverse ++ pending) t' := by
  rw [loadReachable, if_pos unseen]
  apply (bind_of_ok hopen).trans
  rw [hlive]
  exact bind_of_ok rfl

theorem loadReachable_of_fault (unseen : h ∈ unvisited) {fault : Error}
    (hopen : openEntry h t = .error fault t') :
    loadReachable unvisited (h :: pending) t = .error fault t' := by
  rw [loadReachable, if_pos unseen]
  exact bind_of_error hopen

/-- One that was visited, or is not there at all, is not visited. -/
theorem loadReachable_of_not_mem (visited : h ∉ unvisited) :
    loadReachable unvisited (h :: pending) t =
      if t.entries.contains h then loadReachable unvisited pending t
      else .error (.loadUncommitted h) t := by
  rw [loadReachable, if_neg visited]
  apply (bind_of_ok rfl).trans
  split <;> rfl

theorem load_eager_of_fault (active : t.status = .active) {fault : Error}
    (hrun : loadReachable t.available [h] t = .error fault t') (type : ObjectType) :
    load type h .eager t = .error fault t' :=
  (guarded_eq active _).trans ((bind_of_ok rfl).trans (bind_of_error hrun))

/-- In the end the object has to be of the type. -/
theorem load_eager_of_ok (active : t.status = .active)
    (hrun : loadReachable t.available [h] t = .ok () t') (he : t'.entries.find? h = some e)
    (ho : e.object = some o) (type : ObjectType) :
    load type h .eager t = if o.type = type then .ok (.tracked type h) t'
      else .error (.wrongType type.name o.type.name) t' := by
  refine (guarded_eq active _).trans ((bind_of_ok rfl).trans ((bind_of_ok hrun).trans
    ((bind_of_ok rfl).trans ?_)))
  simp only [he, Entry.get_of_object ho, Object.castTo]
  split <;> rfl

end Visit

end Transaction

end TransactionalHeap
