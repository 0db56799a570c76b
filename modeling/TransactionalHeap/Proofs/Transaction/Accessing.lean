import TransactionalHeap.Proofs.Transaction.Exploring

/-!
# What an access gives

Every way of getting at an object gives what the view shows: reading, opening for a change, and loading
under each policy. Following all references succeeds when everything that is reached can be opened.
-/
namespace TransactionalHeap

variable [Transactables]

namespace Transaction

variable {good : Object → Prop} {t t' : Transaction} {h : Handle} {e : Entry} {o : Object}

/-- Loading and then asking for the object that the load stands for. -/
def loadObject (type : ObjectType) (h : Handle) (policy : ReadPolicy) : Step Transaction Object := do
  (← load type h policy).get

/-- The ways of getting at an object. -/
inductive Access where
  | read
  | write
  | load (policy : ReadPolicy)
  deriving DecidableEq, Repr

/-- Getting at the object under a handle, as one of the given type. -/
def Access.run (type : ObjectType) (h : Handle) : Access → Step Transaction Object
  | .read => Transaction.read type h
  | .write => Transaction.write type h
  | .load policy => loadObject type h policy

section Shown

variable (faithful : ∀ o, good o → o.Faithful)
include faithful

theorem read_of_value (sound : t.Sound good) (active : t.status = .active)
    (hv : t.toView.value h = .ok o) : ∃ t', read o.type h t = .ok o t' ∧ Loads good t t' := by
  obtain ⟨e, hopen, hloads, ho⟩ := openEntry_of_value faithful sound hv
  refine ⟨t.put h e, ?_, hloads⟩
  refine (guarded_eq active _).trans ((bind_of_ok hopen).trans ?_)
  rw [Entry.get_of_object ho, Object.castTo_self]
  rfl

/-- Loading everything from an object on gives a reference to it, if everything opens. -/
theorem load_eager_of_opens (sound : t.Sound good) (active : t.status = .active)
    (hv : t.toView.value h = .ok o) (hopens : t.toView.Opens h) :
    ∃ t', load o.type h .eager t = .ok (.tracked o.type h) t' ∧ Loads good t t' := by
  rcases sound.load_eager (sound.backed faithful) active h with ⟨-, o', t', hv', -, within, hload⟩ |
    ⟨hnot, -⟩
  · cases hv.symm.trans hv'
    exact ⟨t', (hload o.type).trans (if_pos rfl), within.loads⟩
  · exact absurd hopens hnot

/-- An entry that was loaded has the type that the view shows. -/
theorem origin_type_eq (sound : t.Sound good) (he : t.entries.find? h = some e)
    (hv : t.toView.value h = .ok o) {r : Record} (horigin : e.origin = some r) :
    r.type = o.type := by
  have hsound := sound.entries h e he
  cases hsound with
  | fresh o' absent isGood => cases horigin
  | changed r' o' stored sameType isGood =>
    cases horigin
    have hv' := sound.value_of_object faithful he rfl
    rw [hv] at hv'
    cases hv'
    exact sameType.symm
  | loaded r' object stored yielded =>
    cases horigin
    obtain ⟨o', hrebuild, hholds⟩ := sound.exists_rebuild faithful stored
    rw [value_of_stored (by rw [he]; rfl) stored, hrebuild] at hv
    cases hv
    exact hholds.1

/-- Putting off the rebuilding gives a reference of the type that the view shows. -/
theorem load_lazy_of_value (sound : t.Sound good) (active : t.status = .active)
    (hv : t.toView.value h = .ok o) :
    ∃ t', load o.type h .lazy t = .ok (.deferred o.type h) t' ∧ Loads good t t' := by
  obtain ⟨e, hopen, -⟩ := openEntry_of_value faithful sound hv
  obtain ⟨e, t', hentry, -⟩ := ok_of_bind hopen
  have hloads : Loads good t t' := by
    have := OnlyLoads.entry h t sound
    rwa [Step.after_of_ok hentry] at this
  have he : t'.entries.find? h = some e := find?_of_entry hentry
  have hv' : t'.toView.value h = .ok o := by rwa [hloads.toView_eq]
  refine ⟨t', ?_, hloads⟩
  refine (guarded_eq active _).trans ((bind_of_ok hentry).trans ?_)
  cases horigin : e.origin with
  | none => rfl
  | some r =>
    have htype := origin_type_eq faithful hloads.sound he hv' horigin
    simp only [htype, if_true]
    rfl

/-- The current fields of an entry are those of the object that the view shows. -/
theorem dematerialize_of_value (sound : t.Sound good) (he : t.entries.find? h = some e)
    (hv : t.toView.value h = .ok o) : e.dematerialize = .ok o.dematerialize := by
  have hsound := sound.entries h e he
  cases hobject : e.object with
  | some o' =>
    have hv' := sound.value_of_object faithful he hobject
    rw [hv] at hv'
    cases hv'
    simp only [Entry.dematerialize, hobject]
  | none =>
    cases hsound with
    | fresh o' absent isGood => cases hobject
    | changed r o' stored sameType isGood => cases hobject
    | loaded r object stored yielded =>
      cases hobject
      obtain ⟨o', hrebuild, hholds⟩ := sound.exists_rebuild faithful stored
      rw [value_of_stored (by rw [he]; rfl) stored, hrebuild] at hv
      cases hv
      exact congrArg Except.ok hholds.2.2

/-- An untracked copy has the value that the view shows. -/
theorem load_unmanaged_of_value (sound : t.Sound good) (active : t.status = .active)
    (hv : t.toView.value h = .ok o) : load o.type h .unmanaged t = .ok (.detached o) t := by
  refine (guarded_eq active _).trans ((bind_of_ok rfl).trans ?_)
  cases hfound : t.entries.find? h with
  | some e =>
    have hgood : good o := by
      obtain ⟨e', -, hloads, ho⟩ := openEntry_of_value faithful sound hv
      exact (hloads.sound.entries h e' find?_put_self).object_good ho
    have hread : o.type.read o.dematerialize = .ok o := Materializer.read_of_run (faithful o hgood)
    simp only [dematerialize_of_value faithful sound hfound hv]
    apply (bind_of_ok rfl).trans
    rw [hread]
    rfl
  | none =>
    cases hstored : t.snapshot.read h with
    | none =>
      rw [value_of_missing (by rw [hfound]; rfl) hstored] at hv
      cases hv
    | some r =>
      obtain ⟨-, o', isGood, hholds⟩ := sound.stores.record h r hstored
      rw [value_of_stored (by rw [hfound]; rfl) hstored,
        hholds.rebuild (faithful o' isGood)] at hv
      cases hv
      simp only [hholds.rebuildAs (faithful o isGood)]
      rfl

/-- Loading under any policy, and then asking for the object, gives what the view shows. An eager
load has to open everything else on its way. -/
theorem loadObject_of_value (sound : t.Sound good) (active : t.status = .active)
    (hv : t.toView.value h = .ok o) (policy : ReadPolicy)
    (hopens : policy = .eager → t.toView.Opens h) :
    ∃ t', loadObject o.type h policy t = .ok o t' := by
  -- a reference is read where the load has left the transaction
  have hread : ∀ t₁, Loads good t t₁ → ∃ t', read o.type h t₁ = .ok o t' := by
    intro t₁ hloads
    obtain ⟨t', hrun, -⟩ := read_of_value faithful hloads.sound (hloads.status_eq.trans active)
      (by rwa [hloads.toView_eq])
    exact ⟨t', hrun⟩
  cases policy with
  | eager =>
    obtain ⟨t₁, hload, hloads⟩ := load_eager_of_opens faithful sound active hv (hopens rfl)
    obtain ⟨t', hrun⟩ := hread t₁ hloads
    exact ⟨t', (bind_of_ok hload).trans hrun⟩
  | lazy =>
    obtain ⟨t₁, hload, hloads⟩ := load_lazy_of_value faithful sound active hv
    obtain ⟨t', hrun⟩ := hread t₁ hloads
    exact ⟨t', (bind_of_ok hload).trans hrun⟩
  | unmanaged => exact ⟨t, bind_of_ok (load_unmanaged_of_value faithful sound active hv)⟩

/-- Where the view shows nothing, every access reports so. -/
theorem access_of_no_value (sound : t.Sound good) (active : t.status = .active) {fault : Error}
    (hv : t.toView.value h = .error fault) (access : Access) (type : ObjectType) :
    access.run type h t = .error (.loadUncommitted h) t := by
  obtain ⟨-, hopen, habsent, hmissing⟩ := openEntry_of_no_value faithful sound hv
  cases access with
  | read => exact (guarded_eq active _).trans (bind_of_error hopen)
  | write => exact (guarded_eq active _).trans (bind_of_error hopen)
  | load policy =>
    refine bind_of_error ((guarded_eq active _).trans ?_)
    cases policy with
    | eager =>
      refine (bind_of_ok rfl).trans (bind_of_error ?_)
      by_cases hmem : h ∈ t.available
      · exact loadReachable_of_fault hmem hopen
      · rw [loadReachable_of_not_mem hmem, if_neg (by simp [SortedMap.contains, habsent])]
    | lazy => exact bind_of_error (entry_of_missing habsent hmissing)
    | unmanaged =>
      apply (bind_of_ok rfl).trans
      simp only [habsent, hmissing]
      rfl

end Shown

end Transaction

end TransactionalHeap
