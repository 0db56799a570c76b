import TransactionalHeap.Proofs.Transaction.Collecting
import TransactionalHeap.Proofs.Transaction.WellFormed

/-!
# How operations fail

A sound transaction has well-formed entries, and so have its branches. Hence no operation on it fails
for a defect of the engine: whatever goes wrong is about what was asked for, or is what a type has raised
while an object was rebuilt (`Transaction.ordinary_run`).
-/
namespace TransactionalHeap

variable [Transactables] {good : Object → Prop} {s : Snapshot} {h : Handle}

/-- Whatever is stored is proper. -/
theorem Snapshot.Stores.proper (stores : s.Stores good) {r : Record} (stored : s.read h = some r) :
    r.Proper h :=
  ⟨(stores.record h r stored).1, stores.materializer_eq stored⟩

theorem Entry.Sound.wellFormed {e : Entry} (stores : s.Stores good) (sound : e.Sound good s h) :
    e.WellFormed h := by
  cases sound with
  | fresh o absent isGood => exact Entry.wellFormed_fresh h o
  | loaded r object stored yielded =>
    refine ⟨rfl, ⟨nofun, nofun⟩, nofun, fun o ho => ?_, fun r' hr' => ?_⟩
    · rw [stores.materializer_eq stored, (yielded o ho).2.1]
    · cases hr'
      exact ⟨stores.proper stored, stores.materializer_eq stored⟩
  | changed r o stored sameType isGood =>
    refine ⟨rfl, ⟨nofun, nofun⟩, fun _ => rfl, fun o' ho' => ?_, fun r' hr' => ?_⟩
    · cases ho'
      rw [stores.materializer_eq stored, sameType]
    · cases hr'
      exact ⟨stores.proper stored, stores.materializer_eq stored⟩

theorem SavedEntry.Sound.wellFormed {saved : SavedEntry} (stores : s.Stores good)
    (sound : saved.Sound good s h) : saved.WellFormed h := by
  cases sound with
  | fresh o absent isGood => exact ⟨⟨fun _ => rfl, fun _ => rfl⟩, fun _ => rfl, nofun⟩
  | loaded r stored =>
    refine ⟨⟨nofun, nofun⟩, nofun, fun r' hr' => ?_⟩
    cases hr'
    exact ⟨stores.proper stored, stores.materializer_eq stored⟩
  | changed r o stored sameType isGood =>
    refine ⟨⟨nofun, nofun⟩, fun _ => rfl, fun r' hr' => ?_⟩
    cases hr'
    exact ⟨stores.proper stored, stores.materializer_eq stored⟩

/-- A change that raises no defect itself; the other operations have none. -/
def Op.Calm : Op → Prop
  | .update _ _ change => ∀ o fault, change o = .error fault → fault.Ordinary
  | .read .. | .write .. | .attachTo .. | .load .. | .startOr | .endOr | .endOrElse | .dropFrame => True

namespace Transaction

variable {t t' : Transaction} {fault : Error} {type : ObjectType}

/-- The entries of a transaction, with what its branches have captured. -/
def table (t : Transaction) : EntryTable := ⟨t.entries, t.frames⟩

theorem Sound.table (sound : t.Sound good) : t.table.WellFormed where
  entries h e he := (sound.entries h e he).wellFormed sound.stores
  captured f hf h saved hsaved := (sound.frames f hf h saved hsaved).wellFormed sound.stores

/-! ## One object -/

theorem ordinary_castTo {o : Object} (hfault : o.castTo type = .error fault) :
    fault.Ordinary := by
  unfold Object.castTo at hfault
  split at hfault
  · cases hfault
  · cases hfault
    exact .inl rfl

theorem ordinary_read_fields {fields : Fields} (hfault : type.read fields = .error fault) :
    fault.Ordinary :=
  .inr ⟨type, fields, hfault⟩

theorem ordinary_rebuildAs {r : Record} (hfault : r.rebuildAs type = .error fault) :
    fault.Ordinary := by
  unfold Record.rebuildAs at hfault
  split at hfault
  · exact ordinary_read_fields hfault
  · cases hfault
    exact .inl rfl

/-- An operation that checks first fails at the check for an ordinary reason. -/
theorem ordinary_guarded {α : Type} {rest : Step Transaction α}
    (hrun : (ensureActive >>= fun _ => rest) t = .error fault t')
    (active : t.status = .active → rest t = .error fault t' → fault.Ordinary) :
    fault.Ordinary := by
  by_cases hactive : t.status = .active
  · rw [guarded_eq hactive] at hrun
    exact active hactive hrun
  · rw [bind_of_error (ensureActive_of_ended hactive)] at hrun
    cases hrun
    exact .inl rfl

theorem ordinary_entry (hrun : entry h t = .error fault t') : fault.Ordinary := by
  cases hfound : t.entries.find? h with
  | some e =>
    rw [entry_of_find? hfound] at hrun
    cases hrun
  | none =>
    cases hread : t.snapshot.read h with
    | some r =>
      rw [entry_of_read hfound hread] at hrun
      cases hrun
    | none =>
      rw [entry_of_missing hfound hread] at hrun
      cases hrun
      exact .inl rfl

theorem ordinary_openEntry (sound : t.Sound good) (hrun : openEntry h t = .error fault t') :
    fault.Ordinary := by
  rcases openEntry_cases sound h with ⟨e, o, hopen, -⟩ | ⟨hopen, -⟩ | ⟨r, cause, -, hrebuild, hopen, -⟩
  · rw [hopen] at hrun
    cases hrun
  · rw [hopen] at hrun
    cases hrun
    exact .inl rfl
  · rw [hopen] at hrun
    cases hrun
    exact Materializer.ordinary_of_run hrebuild

/-- An entry that was opened has its object. -/
theorem opened_of_openEntry {e : Entry} (sound : t.Sound good) (hrun : openEntry h t = .ok e t') :
    Loads good t t' ∧ t'.entries.find? h = some e ∧ ∃ o, e.object = some o := by
  rcases openEntry_cases sound h with ⟨e', o, hopen, hloads, ho⟩ | ⟨hopen, -⟩ | ⟨r, cause, -, -, hopen, -⟩
  · rw [hopen] at hrun
    cases hrun
    exact ⟨hloads, find?_put_self, o, ho⟩
  · rw [hopen] at hrun
    cases hrun
  · rw [hopen] at hrun
    cases hrun

/-- An object that is there is of another type at worst. -/
theorem ordinary_get {e : Entry} {o : Object} (ho : e.object = some o)
    (hfault : e.get type = .error fault) : fault.Ordinary :=
  ordinary_castTo ((Entry.get_of_object ho type).symm.trans hfault)

theorem ofExcept_error {α : Type} {r : Except Error α}
    (hrun : (Step.ofExcept r : Step Transaction α) t = .error fault t') : r = .error fault := by
  cases r with
  | ok a => cases hrun
  | error e =>
    cases hrun
    rfl

theorem ordinary_read (sound : t.Sound good) (hrun : read type h t = .error fault t') :
    fault.Ordinary := by
  refine ordinary_guarded hrun fun _ hrun => ?_
  rcases error_of_bind hrun with hfault | ⟨e, t₁, hopen, hfault⟩
  · exact ordinary_openEntry sound hfault
  · obtain ⟨-, -, o, ho⟩ := opened_of_openEntry sound hopen
    exact ordinary_get ho (ofExcept_error hfault)

theorem ordinary_write (sound : t.Sound good) (hrun : write type h t = .error fault t') :
    fault.Ordinary := by
  refine ordinary_guarded hrun fun _ hrun => ?_
  rcases error_of_bind hrun with hfault | ⟨e, t₁, hopen, hfault⟩
  · exact ordinary_openEntry sound hfault
  · obtain ⟨hloads, he, o, ho⟩ := opened_of_openEntry sound hopen
    have heSound := hloads.sound.entries h e he
    rcases heSound.getForWrite ho type with ⟨-, hget⟩ | ⟨-, e', hget, -⟩
    · rw [hget] at hfault
      cases hfault
      exact .inl rfl
    · rw [hget] at hfault
      cases hfault

theorem ordinary_update (sound : t.Sound good) {change : Object → Except Error Object}
    (calm : ∀ o fault, change o = .error fault → fault.Ordinary)
    (hrun : update type h change t = .error fault t') : fault.Ordinary := by
  rcases error_of_bind hrun with hfault | ⟨o, t₁, -, hrest⟩
  · exact ordinary_write sound hfault
  rcases error_of_bind hrest with hfault | ⟨o', t₂, -, hfault⟩
  · have hchange := ofExcept_error hfault
    cases hmade : change o with
    | error cause =>
      rw [hmade] at hchange
      cases hchange
      exact calm o fault hmade
    | ok made =>
      rw [hmade] at hchange
      exact ordinary_castTo hchange
  · cases hfault

theorem ordinary_attachTo (sound : t.Sound good) {o : Object}
    (hrun : attachTo h o t = .error fault t') : fault.Ordinary := by
  refine ordinary_guarded hrun fun _ hrun => ?_
  replace hrun := error_of_get hrun
  cases hfound : t.entries.find? h with
  | some e =>
    simp only [hfound] at hrun
    rcases (sound.entries h e hfound).replaceFresh o with ⟨-, hreplace⟩ | ⟨-, hreplace⟩
    · rw [hreplace] at hrun
      cases hrun
    · rw [hreplace] at hrun
      cases hrun
      exact .inl rfl
  | none =>
    simp only [hfound] at hrun
    split at hrun
    · cases hrun
      exact .inl rfl
    · cases hrun

/-! ## Loading -/

theorem ordinary_loadReachable (unvisited stack : List Handle) : ∀ t : Transaction, t.Sound good →
    ∀ fault t', loadReachable unvisited stack t = .error fault t' → fault.Ordinary := by
  induction unvisited, stack using Transaction.loadReachable.induct with
  | case1 unvisited =>
    intro t sound fault t' hrun
    rw [loadReachable_nil] at hrun
    cases hrun
  | case2 unvisited h pending hmem ih =>
    intro t sound fault t' hrun
    cases hopen : openEntry h t with
    | error cause t₁ =>
      rw [loadReachable_of_fault hmem hopen] at hrun
      cases hrun
      exact ordinary_openEntry sound hopen
    | ok e t₁ =>
      obtain ⟨hloads, -, o, ho⟩ := opened_of_openEntry sound hopen
      rw [loadReachable_of_opened hmem hopen (Entry.live_of_object ho)] at hrun
      exact ih o t₁ hloads.sound fault t' hrun
  | case3 unvisited h pending hmem ih =>
    intro t sound fault t' hrun
    rw [loadReachable_of_not_mem hmem] at hrun
    split at hrun
    · exact ih t sound fault t' hrun
    · cases hrun
      exact .inl rfl

/-- What a load of everything starts from is there in the end, with its object. -/
theorem root_of_loadReachable (sound : t.Sound good)
    (hrun : loadReachable t.available [h] t = .ok () t') :
    ∃ e o, t'.entries.find? h = some e ∧ e.object = some o := by
  by_cases hmem : h ∈ t.available
  · cases hopen : openEntry h t with
    | error cause t₁ =>
      rw [loadReachable_of_fault hmem hopen] at hrun
      cases hrun
    | ok e t₁ =>
      obtain ⟨hloads, he, o, ho⟩ := opened_of_openEntry sound hopen
      rw [loadReachable_of_opened hmem hopen (Entry.live_of_object ho)] at hrun
      have hlater : Loads good t₁ t' := by
        have hloads' := OnlyLoads.loadReachable (t.available.erase h) (o.children.reverse ++ []) t₁
          hloads.sound
        rwa [Step.after_of_ok hrun] at hloads'
      obtain ⟨e', he', hkept⟩ := hlater.kept h e he
      exact ⟨e', o, he', by rw [hkept (by rw [ho]; rfl), ho]⟩
  · rw [loadReachable_of_not_mem hmem] at hrun
    split at hrun
    · next hcontains =>
      obtain ⟨e, he⟩ := SortedMap.contains_iff.mp hcontains
      rw [(absent_of_not_available hmem).1] at he
      cases he
    · cases hrun

theorem ordinary_load (sound : t.Sound good) (policy : ReadPolicy)
    (hrun : load type h policy t = .error fault t') : fault.Ordinary := by
  refine ordinary_guarded hrun fun _ hrun => ?_
  cases policy with
  | eager =>
    replace hrun := error_of_get hrun
    rcases error_of_bind hrun with hfault | ⟨⟨⟩, t₂, hload, hrun⟩
    · exact ordinary_loadReachable _ _ t sound fault t' hfault
    obtain ⟨e, o, he, ho⟩ := root_of_loadReachable sound hload
    replace hrun := error_of_get hrun
    simp only [he] at hrun
    rcases error_of_bind hrun with hfault | ⟨⟨⟩, t₃, -, hfault⟩
    · exact ordinary_get ho (ofExcept_error (error_of_discard hfault))
    · cases hfault
  | lazy =>
    rcases error_of_bind hrun with hfault | ⟨e, t₁, -, hrun⟩
    · exact ordinary_entry hfault
    cases horigin : e.origin with
    | some r =>
      simp only [horigin] at hrun
      split at hrun
      · cases hrun
      · cases hrun
        exact .inl rfl
    | none =>
      simp only [horigin] at hrun
      cases hrun
  | unmanaged =>
    replace hrun := error_of_get hrun
    cases hfound : t.entries.find? h with
    | some e =>
      simp only [hfound] at hrun
      obtain ⟨fields, hfields⟩ := (sound.table.entries h e hfound).dematerialize
      rw [hfields] at hrun
      replace hrun := (bind_of_ok rfl).symm.trans hrun
      rcases error_of_bind hrun with hfault | ⟨o, t₂, -, hfault⟩
      · exact ordinary_read_fields (ofExcept_error hfault)
      · cases hfault
    | none =>
      cases hread : t.snapshot.read h with
      | none =>
        simp only [hfound, hread] at hrun
        cases hrun
        exact .inl rfl
      | some r =>
        simp only [hfound, hread] at hrun
        rcases error_of_bind hrun with hfault | ⟨o, t₁, -, hfault⟩
        · exact ordinary_rebuildAs (ofExcept_error hfault)
        · cases hfault

/-! ## Branches -/

theorem ordinary_startOr (sound : t.Sound good) (hrun : startOr t = .error fault t') :
    fault.Ordinary := by
  refine ordinary_guarded hrun fun active _ => ?_
  obtain ⟨f, hcapture⟩ := sound.table.usable.capture
  rw [startOr_eq active hcapture] at hrun
  cases hrun

theorem ordinary_endOr (hrun : endOr t = .error fault t') : fault.Ordinary := by
  refine ordinary_guarded hrun fun active _ => ?_
  cases hframes : t.frames with
  | nil =>
    rw [endOr_of_none active hframes] at hrun
    cases hrun
    exact .inl rfl
  | cons f outer =>
    rw [endOr_eq active hframes] at hrun
    cases hrun

theorem ordinary_endOrElse (sound : t.Sound good) (hrun : endOrElse t = .error fault t') :
    fault.Ordinary := by
  refine ordinary_guarded hrun fun active _ => ?_
  cases hframes : t.frames with
  | nil =>
    rw [endOrElse_of_none active hframes] at hrun
    cases hrun
    exact .inl rfl
  | cons f outer =>
    have hf : f ∈ t.frames := hframes ▸ List.mem_cons_self
    rw [endOrElse_eq active hframes] at hrun
    cases hrestore : f.restore t.entries with
    | ok u entries =>
      rw [hrestore] at hrun
      cases hrun
    | error cause left =>
      rw [hrestore] at hrun
      cases hrun
      obtain ⟨_, _, _, -, -, hstate⟩ := sound.table.usable.restore f hf _ _ hrestore
      exact Materializer.ordinary_of_run hstate

/-! ## Any operation -/

/-- No operation on a sound transaction fails for a defect. -/
theorem ordinary_run (sound : t.Sound good) {op : Op} (calm : op.Calm)
    (hrun : op.run t = .error fault t') : fault.Ordinary := by
  cases op with
  | read type h => exact ordinary_read sound (error_of_discard hrun)
  | write type h => exact ordinary_write sound (error_of_discard hrun)
  | update type h change => exact ordinary_update sound calm (error_of_discard hrun)
  | attachTo h o => exact ordinary_attachTo sound hrun
  | load type h policy => exact ordinary_load sound policy (error_of_discard hrun)
  | startOr => exact ordinary_startOr sound hrun
  | endOr => exact ordinary_endOr hrun
  | endOrElse => exact ordinary_endOrElse sound hrun
  | dropFrame => cases hrun

/-- The transaction can be worked with and committed: what it has to write is collected, and no
operation on it fails for a defect. -/
structure Usable (t : Transaction) : Prop where
  entries : t.table.Usable
  collects : ∃ writes t', collectWrites t = .ok writes t' ∧ ∀ w ∈ writes, w.materializer = ⟨w.type⟩
  ordinary : ∀ op : Op, op.Calm → ∀ fault t', op.run t = .error fault t' → fault.Ordinary

theorem Sound.usable (sound : t.Sound good) : t.Usable where
  entries := sound.table.usable
  collects := by
    refine ⟨_, _, collectWrites_eq sound, fun w hw => ?_⟩
    obtain ⟨o, due⟩ := due_of_mem_pendingWrites sound hw
    rw [due.eq]
    rfl
  ordinary _ calm _ _ hrun := ordinary_run sound calm hrun

end Transaction

end TransactionalHeap
