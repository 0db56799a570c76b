import TransactionalHeap.Proofs.Transaction.Opening

/-!
# Objects that the view shows

The object of an entry that was not opened for a change is what its record rebuilds to, for it comes there
by rebuilding alone (`Transaction.Backed`). This holds of all objects, also of those that do not survive
flattening. So opening an object gives what the view shows, and fails as the view does
(`Transaction.Backed.openEntry_cases`). Where all objects survive flattening, every sound transaction is
such a one.
-/
namespace TransactionalHeap

variable [Transactables]

namespace Transaction

/-- All entries are backed. -/
def Backed (t : Transaction) : Prop := ∀ h e, t.entries.find? h = some e → e.Backed

variable {good : Object → Prop} {t t' : Transaction} {h : Handle} {e : Entry} {o : Object}

theorem backed_of_empty (entries : t.entries = ∅) : t.Backed := by
  intro h e he
  rw [entries] at he
  cases he

namespace Backed

theorem put (backed : t.Backed) (he : e.Backed) : (t.put h e).Backed := by
  intro other e' he'
  rcases SortedMap.find?_of_insert he' with ⟨rfl, rfl⟩ | ⟨-, he'⟩
  · exact he
  · exact backed other e' he'

theorem loads (backed : t.Backed) (loads : Loads good t t') : t'.Backed := by
  intro h e he
  rcases loads.backed h e he with he | hbacked
  · exact backed h e he
  · exact hbacked

/-! ## What opening shows -/

/-- The object of an entry is what the view shows. -/
theorem value_of_object (backed : t.Backed) (sound : t.Sound good)
    (he : t.entries.find? h = some e) (ho : e.object = some o) : t.toView.value h = .ok o := by
  have hbacked := backed h e he
  cases sound.entries h e he with
  | fresh o' absent isGood =>
    cases ho
    exact value_of_buffered (by rw [he]; rfl)
  | changed r o' stored sameType isGood =>
    cases ho
    exact value_of_buffered (by rw [he]; rfl)
  | loaded r object stored yielded =>
    exact (value_of_stored (by rw [he]; rfl) stored).trans (hbacked rfl r o rfl ho)

/-- Opening an object gives what the view shows, and fails as the view does. -/
theorem openEntry_cases (backed : t.Backed) (sound : t.Sound good) (h : Handle) :
    (∃ e o, t.toView.value h = .ok o ∧ openEntry h t = .ok e (t.put h e) ∧
      Loads good t (t.put h e) ∧ e.object = some o) ∨
    (∃ fault t', t.toView.value h = .error fault ∧ openEntry h t = .error fault t' ∧
      Loads good t t' ∧ (t' = t ∨ ∃ r, t' = t.put h (.deferred r))) := by
  rcases Transaction.openEntry_cases sound h with ⟨e, o, hopen, hloads, ho⟩ |
    ⟨hopen, habsent, hmissing⟩ | ⟨r, fault, stored, hfault, hopen, hloads⟩
  · have hvalue := (backed.loads hloads).value_of_object hloads.sound find?_put_self ho
    rw [hloads.toView_eq] at hvalue
    exact .inl ⟨e, o, hvalue, hopen, hloads, ho⟩
  · exact .inr ⟨_, t, value_of_missing (by rw [habsent]; rfl) hmissing, hopen, .refl sound, .inl rfl⟩
  · have hvalue := value_of_stored (t := t.put h (.deferred r)) (by rw [find?_put_self]; rfl) stored
    rw [hloads.toView_eq, hfault] at hvalue
    exact .inr ⟨fault, _, hvalue, hopen, hloads, .inr ⟨r, rfl⟩⟩

end Backed

/-! ## Where all objects survive flattening -/

section Faithful

variable (faithful : ∀ o, good o → o.Faithful)
include faithful

/-- A record in the snapshot can be rebuilt. -/
theorem Sound.exists_rebuild (sound : t.Sound good) {r : Record}
    (stored : t.snapshot.read h = some r) : ∃ o, r.rebuild = .ok o ∧ r.Holds o := by
  obtain ⟨-, o, isGood, hholds⟩ := sound.stores.record h r stored
  exact ⟨o, hholds.rebuild (faithful o isGood), hholds⟩

theorem Sound.backed (sound : t.Sound good) : t.Backed := by
  intro h e he clean r o horigin ho
  cases sound.entries h e he with
  | fresh o' absent isGood => cases horigin
  | changed r' o' stored sameType isGood => cases clean
  | loaded r' object stored yielded =>
    cases horigin
    obtain ⟨isGood, yields⟩ := yielded o ho
    exact yields.rebuild (sound.stores.materializer_eq stored) (faithful o isGood)

/-- The object of an entry is what the view shows. -/
theorem Sound.value_of_object (sound : t.Sound good) (he : t.entries.find? h = some e)
    (ho : e.object = some o) : t.toView.value h = .ok o :=
  (sound.backed faithful).value_of_object sound he ho

/-- Opening gives the object that the view shows. -/
theorem openEntry_of_value (sound : t.Sound good) (hv : t.toView.value h = .ok o) :
    ∃ e, openEntry h t = .ok e (t.put h e) ∧ Loads good t (t.put h e) ∧ e.object = some o := by
  rcases (sound.backed faithful).openEntry_cases sound h with
    ⟨e, o', hv', hopen, hloads, ho'⟩ | ⟨fault, t', hfault, -⟩
  · cases hv.symm.trans hv'
    exact ⟨e, hopen, hloads, ho'⟩
  · cases hv.symm.trans hfault

/-- Where the view shows nothing there is nothing to open. -/
theorem openEntry_of_no_value (sound : t.Sound good) {fault : Error}
    (hv : t.toView.value h = .error fault) :
    fault = .loadUncommitted h ∧ openEntry h t = .error (.loadUncommitted h) t ∧
      t.entries.find? h = none ∧ t.snapshot.read h = none := by
  rcases openEntry_cases sound h with ⟨e, o, -, hloads, ho⟩ | ⟨hopen, habsent, hmissing⟩ |
    ⟨r, fault', stored, hfault, -⟩
  · have hv' := hloads.sound.value_of_object faithful find?_put_self ho
    rw [hloads.toView_eq, hv] at hv'
    cases hv'
  · rw [value_of_missing (by rw [habsent]; rfl) hmissing] at hv
    cases hv
    exact ⟨rfl, hopen, habsent, hmissing⟩
  · obtain ⟨o', hrebuild, -⟩ := sound.exists_rebuild faithful stored
    rw [hfault] at hrebuild
    cases hrebuild

end Faithful

end Transaction

end TransactionalHeap
