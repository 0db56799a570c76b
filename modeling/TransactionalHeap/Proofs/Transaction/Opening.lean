import TransactionalHeap.Proofs.Step
import TransactionalHeap.Proofs.Transaction.View

/-!
# Opening objects

A transaction is sound when all its entries and all that its branches saved are. Reading and loading
keep it so, and they only add clean entries or rebuild objects in them (`Transaction.Loads`), so the
transaction's view stays as it is.
-/
namespace TransactionalHeap

variable [Transactables]

namespace Transaction

/-- The entries and the branches fit the snapshot, and the snapshot stores good objects. -/
structure Sound (good : Object → Prop) (t : Transaction) : Prop where
  stores : t.snapshot.Stores good
  entries : ∀ h e, t.entries.find? h = some e → e.Sound good t.snapshot h
  frames : ∀ f ∈ t.frames, ∀ h saved, f.saved.find? h = some saved →
    saved.Sound good t.snapshot h

/-- The transaction with an entry put in place. -/
def put (h : Handle) (e : Entry) (t : Transaction) : Transaction :=
  { t with entries := t.entries.insert h e }

variable {good : Object → Prop} {t t' : Transaction} {h : Handle} {e : Entry} {o : Object}

theorem setEntry_eq : setEntry h e t = .ok () (t.put h e) := rfl

@[simp] theorem put_put (first : Entry) : (t.put h first).put h e = t.put h e := by
  simp only [put, SortedMap.insert_insert]

theorem put_of_find? (he : t.entries.find? h = some e) : t.put h e = t := by
  rw [put, SortedMap.insert_of_find? he]

theorem find?_put_self : (t.put h e).entries.find? h = some e :=
  SortedMap.find?_insert_self _ _ _

theorem Sound.put (sound : t.Sound good) (he : e.Sound good t.snapshot h) :
    (t.put h e).Sound good where
  stores := sound.stores
  frames := sound.frames
  entries := by
    intro other e' he'
    rcases SortedMap.find?_of_insert he' with ⟨rfl, rfl⟩ | ⟨-, he'⟩
    · exact he
    · exact sound.entries other e' he'

/-- What reading may do to a transaction: add clean entries and rebuild objects. -/
structure Loads (good : Object → Prop) (t t' : Transaction) : Prop where
  rest : t' = { t with entries := t'.entries }
  sound : t'.Sound good
  overlay : Entries.overlay t'.entries = Entries.overlay t.entries
  kept : ∀ h e, t.entries.find? h = some e →
    ∃ e', t'.entries.find? h = some e' ∧ (e.object.isSome → e' = e)
  backed : ∀ h e', t'.entries.find? h = some e' → t.entries.find? h = some e' ∨ e'.Backed

namespace Loads

theorem refl (sound : t.Sound good) : Loads good t t :=
  ⟨rfl, sound, rfl, fun _ e he => ⟨e, he, fun _ => rfl⟩, fun _ _ he => .inl he⟩

theorem trans {t₁ t₂ : Transaction} (first : Loads good t t₁) (second : Loads good t₁ t₂) :
    Loads good t t₂ where
  rest := by rw [second.rest, first.rest]
  sound := second.sound
  overlay := second.overlay.trans first.overlay
  kept := by
    intro h e he
    obtain ⟨e₁, he₁, hsame₁⟩ := first.kept h e he
    obtain ⟨e₂, he₂, hsame₂⟩ := second.kept h e₁ he₁
    refine ⟨e₂, he₂, fun hobject => ?_⟩
    obtain rfl := hsame₁ hobject
    exact hsame₂ hobject
  backed := by
    intro h e he
    rcases second.backed h e he with he | hbacked
    · exact first.backed h e he
    · exact .inr hbacked

theorem snapshot_eq (loads : Loads good t t') : t'.snapshot = t.snapshot := by rw [loads.rest]

theorem status_eq (loads : Loads good t t') : t'.status = t.status := by rw [loads.rest]

theorem toView_eq (loads : Loads good t t') : t'.toView = t.toView := by
  have hframes : t'.frames = t.frames := by rw [loads.rest]
  rw [toView, toView, loads.snapshot_eq, loads.overlay, hframes]

/-- Putting an entry in place loads, if it is there already, or if it is clean, backed and replaces no
object. -/
theorem put (sound : t.Sound good) (he : e.Sound good t.snapshot h)
    (harmless : t.entries.find? h = some e ∨
      e.buffered = none ∧ e.Backed ∧ ∀ old, t.entries.find? h = some old → old.object = none) :
    Loads good t (t.put h e) := by
  rcases harmless with hthere | ⟨hclean, hbacked, hold⟩
  · rw [put_of_find? hthere]
    exact refl sound
  refine ⟨rfl, sound.put he, ?_, fun other old hother => ?_, fun other e' he' => ?_⟩
  · apply Entries.overlay_insert_of_eq
    cases hfound : t.entries.find? h with
    | none => exact hclean
    | some old =>
      rw [hclean, Option.bind_some, Entry.buffered, hold old hfound, ite_self]
  · by_cases hsame : other = h
    · subst hsame
      refine ⟨e, find?_put_self, fun hobject => ?_⟩
      rw [hold old hother] at hobject
      cases hobject
    · exact ⟨old, (SortedMap.find?_insert_of_ne _ _ hsame).trans hother, fun _ => rfl⟩
  · rcases SortedMap.find?_of_insert he' with ⟨rfl, rfl⟩ | ⟨-, he'⟩
    · exact .inr hbacked
    · exact .inl he'

end Loads

/-! ## Opening one object -/

theorem entry_of_find? (he : t.entries.find? h = some e) : entry h t = .ok e t := by
  apply (bind_of_ok rfl).trans
  simp only [he]
  rfl

theorem entry_of_read {r : Record} (absent : t.entries.find? h = none)
    (stored : t.snapshot.read h = some r) :
    entry h t = .ok (.deferred r) (t.put h (.deferred r)) := by
  apply (bind_of_ok rfl).trans
  simp only [absent, stored]
  rfl

theorem entry_of_missing (absent : t.entries.find? h = none) (missing : t.snapshot.read h = none) :
    entry h t = .error (.loadUncommitted h) t := by
  apply (bind_of_ok rfl).trans
  simp only [absent, missing]
  rfl

/-- The entry that is given is the one that is kept. -/
theorem find?_of_entry {t' : Transaction} (hentry : entry h t = .ok e t') :
    t'.entries.find? h = some e := by
  cases hfound : t.entries.find? h with
  | some old =>
    rw [entry_of_find? hfound] at hentry
    cases hentry
    exact hfound
  | none =>
    cases hread : t.snapshot.read h with
    | none =>
      rw [entry_of_missing hfound hread] at hentry
      cases hentry
    | some r =>
      rw [entry_of_read hfound hread] at hentry
      cases hentry
      exact find?_put_self

theorem openEntry_of_entry {t₁ : Transaction} {e' : Entry} (hentry : entry h t = .ok e t₁)
    (hobject : e.materialize = .ok e') : openEntry h t = .ok e' (t₁.put h e') := by
  apply (bind_of_ok hentry).trans
  rw [hobject]
  rfl

theorem openEntry_of_fault {t₁ : Transaction} {fault : Error} (hentry : entry h t = .ok e t₁)
    (hobject : e.materialize = .error fault) : openEntry h t = .error fault t₁ := by
  apply (bind_of_ok hentry).trans
  rw [hobject]
  rfl

/-- Opening an object whose entry has just been made from what is stored: it is rebuilt, or that
fails. -/
theorem openEntry_of_deferred (sound : t.Sound good) {r : Record}
    (stored : t.snapshot.read h = some r)
    (hentry : entry h t = .ok (.deferred r) (t.put h (.deferred r)))
    (hold : ∀ old, t.entries.find? h = some old → old.object = none) :
    (∃ e o, openEntry h t = .ok e (t.put h e) ∧ Loads good t (t.put h e) ∧ e.object = some o) ∨
    (∃ fault, r.rebuild = .error fault ∧ openEntry h t = .error fault (t.put h (.deferred r)) ∧
      Loads good t (t.put h (.deferred r))) := by
  have hmaterialize : (Entry.deferred r).materialize =
      r.rebuild.map fun o => { Entry.deferred r with object := some o } := rfl
  cases hrebuild : r.rebuild with
  | ok o =>
    rw [hrebuild] at hmaterialize
    have hopen := openEntry_of_entry hentry hmaterialize
    rw [put_put] at hopen
    have hrebuilt := Entry.Sound.rebuilt sound.stores stored hrebuild
    exact .inl ⟨_, o, hopen, .put sound hrebuilt (.inr ⟨rfl, Entry.backed_rebuilt hrebuild, hold⟩), rfl⟩
  | error fault =>
    rw [hrebuild] at hmaterialize
    have hentry' := Entry.Sound.deferred sound.stores stored
    exact .inr ⟨fault, rfl, openEntry_of_fault hentry hmaterialize,
      .put sound hentry' (.inr ⟨rfl, Entry.backed_deferred r, hold⟩)⟩

/-- Opening an object gives its entry, rebuilt; or there is nothing to open; or what is stored
cannot be rebuilt. -/
theorem openEntry_cases (sound : t.Sound good) (h : Handle) :
    (∃ e o, openEntry h t = .ok e (t.put h e) ∧ Loads good t (t.put h e) ∧ e.object = some o) ∨
    (openEntry h t = .error (.loadUncommitted h) t ∧ t.entries.find? h = none ∧
      t.snapshot.read h = none) ∨
    (∃ r fault, t.snapshot.read h = some r ∧ r.rebuild = .error fault ∧
      openEntry h t = .error fault (t.put h (.deferred r)) ∧
      Loads good t (t.put h (.deferred r))) := by
  cases hfound : t.entries.find? h with
  | some e =>
    have he := sound.entries h e hfound
    have hentry := entry_of_find? hfound
    rcases he.materialize sound.stores with ⟨o, ho, hsame⟩ | ⟨r, stored, rfl, -⟩
    · exact .inl ⟨e, o, openEntry_of_entry hentry hsame, .put sound he (.inl hfound), ho⟩
    · have hentry' : entry h t = .ok (.deferred r) (t.put h (.deferred r)) := by
        rw [put_of_find? hfound]
        exact hentry
      have hold : ∀ old, t.entries.find? h = some old → old.object = none := by
        intro old hold
        rw [hfound] at hold
        cases hold
        rfl
      rcases openEntry_of_deferred sound stored hentry' hold with h | ⟨fault, h⟩
      · exact .inl h
      · exact .inr (.inr ⟨r, fault, stored, h⟩)
  | none =>
    have hold : ∀ old, t.entries.find? h = some old → old.object = none := by
      intro old hold
      rw [hfound] at hold
      cases hold
    cases hread : t.snapshot.read h with
    | none =>
      have hopen : openEntry h t = .error (.loadUncommitted h) t :=
        bind_of_error (entry_of_missing hfound hread)
      exact .inr (.inl ⟨hopen, rfl, rfl⟩)
    | some r =>
      rcases openEntry_of_deferred sound hread (entry_of_read hfound hread) hold with h | ⟨fault, h⟩
      · exact .inl h
      · exact .inr (.inr ⟨r, fault, rfl, h⟩)

/-- However opening ends, it loads. -/
theorem loads_openEntry (sound : t.Sound good) (h : Handle) :
    Loads good t ((openEntry h).after t) := by
  rcases openEntry_cases sound h with ⟨e, o, hopen, hloads, -⟩ | ⟨hopen, -⟩ |
    ⟨r, fault, -, -, hopen, hloads⟩
  · rwa [Step.after_of_ok hopen]
  · rw [Step.after_of_error hopen]
    exact .refl sound
  · rwa [Step.after_of_error hopen]

end Transaction

end TransactionalHeap
