import TransactionalHeap.Proofs.Transaction.Accessing

/-!
# Operations and the view

Every operation keeps a transaction sound and touches only its entries and branches. If objects
survive flattening, it also does to the transaction's view what the view's own operation does
(`Transaction.performs`).
-/
namespace TransactionalHeap

variable [Transactables]

namespace Transaction

variable {good : Object → Prop} {t t' : Transaction} {h : Handle} {e : Entry} {o : Object}

/-- What an operation of a transaction does to it: entries and branches change, soundly, and the
view changes in the given way. -/
structure Performs (good : Object → Prop) (change : View → View) (t t' : Transaction) : Prop where
  rest : t' = { t with entries := t'.entries, frames := t'.frames }
  sound : t'.Sound good
  view : (∀ o, good o → o.Faithful) → t'.toView = change t.toView

theorem Loads.performs (loads : Loads good t t') {change : View → View}
    (view : (∀ o, good o → o.Faithful) → change t.toView = t.toView) :
    Performs good change t t' where
  rest := by rw [loads.rest]
  sound := loads.sound
  view faithful := loads.toView_eq.trans (view faithful).symm

theorem toView_put_buffered (he : e.buffered = some o) :
    (t.put h e).toView = { t.toView with overlay := t.toView.overlay.insert h o } := by
  simp only [toView, put, Entries.overlay_insert he]

/-- Putting a changed or new entry in place lays its object over the view. -/
theorem performs_put (sound : t.Sound good) (he : e.Sound good t.snapshot h)
    (hbuffered : e.buffered = some o) {change : View → View}
    (view : (∀ o, good o → o.Faithful) →
      change t.toView = { t.toView with overlay := t.toView.overlay.insert h o }) :
    Performs good change t (t.put h e) where
  rest := rfl
  sound := sound.put he
  view faithful := (toView_put_buffered hbuffered).trans (view faithful).symm

/-! ## Changing and attaching -/

/-- Opening for a change: the object is opened, and then its entry is. -/
theorem write_eq (active : t.status = .active) (type : ObjectType) (h : Handle) :
    write type h t = match openEntry h t with
      | .error fault t₁ => .error fault t₁
      | .ok e t₁ => match e.getForWrite type with
        | .error fault => .error fault t₁
        | .ok (o, e') => .ok o (t₁.put h e') := by
  apply (guarded_eq active _).trans
  cases hopen : openEntry h t with
  | error fault t₁ => exact bind_of_error hopen
  | ok e t₁ =>
    apply (bind_of_ok hopen).trans
    dsimp only
    cases e.getForWrite type <;> rfl

/-- A change is made of what was opened for it. -/
theorem update_eq (type : ObjectType) (h : Handle) (f : Object → Except Error Object)
    (t : Transaction) : update type h f t = match write type h t with
      | .error fault t₁ => .error fault t₁
      | .ok o t₁ => match (f o).bind (·.castTo type) with
        | .error fault => .error fault t₁
        | .ok o' => .ok o' { t₁ with
            entries := t₁.entries.modify h fun e => { e with object := some o' } } := by
  cases hwrite : write type h t with
  | error fault t₁ => exact bind_of_error hwrite
  | ok o t₁ =>
    apply (bind_of_ok hwrite).trans
    change (Step.ofExcept ((f o).bind (·.castTo type)) >>= _) t₁ = _
    dsimp only
    cases (f o).bind (·.castTo type) <;> rfl

/-- Opening for a change either loads only, for there is no object of the type, or it buffers the
object. -/
theorem write_cases (sound : t.Sound good) (active : t.status = .active) (type : ObjectType)
    (h : Handle) :
    (∃ t' fault, write type h t = .error fault t' ∧ Loads good t t' ∧
      ((∀ o, good o → o.Faithful) →
        ∃ fault', (t.toView.value h).bind (·.castTo type) = .error fault')) ∨
    (∃ o e, write type h t = .ok o (t.put h e) ∧ e.Sound good t.snapshot h ∧
      e.buffered = some o ∧ o.type = type ∧
      ((∀ o, good o → o.Faithful) → (t.toView.value h).bind (·.castTo type) = .ok o)) := by
  rcases openEntry_cases sound h with ⟨e, o, hopen, hloads, ho⟩ | ⟨hopen, habsent, hmissing⟩ |
    ⟨r, fault, stored, hfault, hopen, hloads⟩
  · have he : e.Sound good t.snapshot h := hloads.sound.entries h e find?_put_self
    have hvalue : (∀ o, good o → o.Faithful) →
        (t.toView.value h).bind (·.castTo type) = o.castTo type := by
      intro faithful
      rw [← hloads.toView_eq, hloads.sound.value_of_object faithful find?_put_self ho]
      rfl
    rcases he.getForWrite ho type with ⟨hne, hget⟩ | ⟨htype, e', hget, he', hbuffered⟩
    · refine .inl ⟨t.put h e, .wrongType type.name o.type.name, ?_, hloads, fun faithful => ?_⟩
      · simp only [write_eq active, hopen, hget]
      · rw [hvalue faithful]
        exact ⟨_, if_neg hne⟩
    · refine .inr ⟨o, e', ?_, he', hbuffered, htype, fun faithful => ?_⟩
      · simp only [write_eq active, hopen, hget, put_put]
      · rw [hvalue faithful]
        exact if_pos htype
  · refine .inl ⟨t, .loadUncommitted h, by simp only [write_eq active, hopen], .refl sound, fun _ => ?_⟩
    rw [value_of_missing (by rw [habsent]; rfl) hmissing]
    exact ⟨_, rfl⟩
  · refine .inl ⟨_, fault, by simp only [write_eq active, hopen], hloads, fun faithful => ?_⟩
    obtain ⟨o, hrebuild, -⟩ := sound.exists_rebuild faithful stored
    rw [hfault] at hrebuild
    cases hrebuild

/-- Opening for a change gives what the view shows. -/
theorem write_of_value (faithful : ∀ o, good o → o.Faithful) (sound : t.Sound good)
    (active : t.status = .active) (hv : t.toView.value h = .ok o) :
    ∃ t', write o.type h t = .ok o t' := by
  have hcast : (t.toView.value h).bind (·.castTo o.type) = .ok o := by
    rw [hv]
    exact Object.castTo_self o
  rcases write_cases sound active o.type h with ⟨t', fault, -, -, hview⟩ |
    ⟨o', e, hrun, -, -, -, hview⟩
  · obtain ⟨fault', hfault⟩ := hview faithful
    rw [hcast] at hfault
    cases hfault
  · have ho := hview faithful
    rw [hcast] at ho
    cases ho
    exact ⟨t.put h e, hrun⟩

/-- Every access gives what the view shows. An eager load has to open everything else on its way. -/
theorem access_of_value (faithful : ∀ o, good o → o.Faithful) (sound : t.Sound good)
    (active : t.status = .active) (hv : t.toView.value h = .ok o) (access : Access)
    (hopens : access = .load .eager → t.toView.Opens h) :
    ∃ t', access.run o.type h t = .ok o t' := by
  cases access with
  | read =>
    obtain ⟨t', hrun, -⟩ := read_of_value faithful sound active hv
    exact ⟨t', hrun⟩
  | write => exact write_of_value faithful sound active hv
  | load policy =>
    exact loadObject_of_value faithful sound active hv policy fun heager => hopens (by rw [heager])

theorem change_of_error {v : View} {type : ObjectType} {f : Object → Except Error Object}
    {fault : Error} (hv : (v.value h).bind (·.castTo type) = .error fault) :
    View.change type h f v = v := by
  rw [View.change, hv]

theorem change_of_ok {v : View} {type : ObjectType} {f : Object → Except Error Object}
    {o' : Object} (hv : (v.value h).bind (·.castTo type) = .ok o)
    (hf : (f o).bind (·.castTo type) = .ok o') :
    View.change type h f v = { v with overlay := v.overlay.insert h o' } := by
  simp only [View.change, hv, hf]

theorem change_of_failure {v : View} {type : ObjectType} {f : Object → Except Error Object}
    {fault : Error} (hv : (v.value h).bind (·.castTo type) = .ok o)
    (hf : (f o).bind (·.castTo type) = .error fault) :
    View.change type h f v = { v with overlay := v.overlay.insert h o } := by
  simp only [View.change, hv, hf]

theorem performs_write (sound : t.Sound good) (active : t.status = .active) (type : ObjectType)
    (h : Handle) : Performs good (View.change type h .ok) t ((write type h).after t) := by
  rcases write_cases sound active type h with ⟨t', fault, hrun, hloads, hview⟩ |
    ⟨o, e, hrun, he, hbuffered, htype, hview⟩
  · rw [Step.after_of_error hrun]
    apply hloads.performs
    intro faithful
    obtain ⟨fault', hvalue⟩ := hview faithful
    exact change_of_error hvalue
  · rw [Step.after_of_ok hrun]
    apply performs_put sound he hbuffered
    intro faithful
    have hvalue := hview faithful
    apply change_of_ok hvalue
    cases hseen : t.toView.value h with
    | error fault =>
      rw [hseen] at hvalue
      cases hvalue
    | ok o' =>
      rw [hseen] at hvalue
      obtain ⟨rfl, -⟩ := Object.castTo_eq_ok hvalue
      exact hvalue

theorem performs_update (sound : t.Sound good) (active : t.status = .active) (type : ObjectType)
    (h : Handle) {f : Object → Except Error Object}
    (within : ∀ o o', good o → f o = .ok o' → good o') :
    Performs good (View.change type h f) t ((update type h f).after t) := by
  rcases write_cases sound active type h with ⟨t', fault, hrun, hloads, hview⟩ |
    ⟨o, e, hrun, he, hbuffered, htype, hview⟩
  · have hupdate : update type h f t = .error fault t' := by simp only [update_eq, hrun]
    rw [Step.after_of_error hupdate]
    apply hloads.performs
    intro faithful
    obtain ⟨fault', hvalue⟩ := hview faithful
    exact change_of_error hvalue
  · cases hchanged : (f o).bind (·.castTo type) with
    | error fault =>
      have hupdate : update type h f t = .error fault (t.put h e) := by
        simp only [update_eq, hrun, hchanged]
      rw [Step.after_of_error hupdate]
      exact performs_put sound he hbuffered fun faithful =>
        change_of_failure (hview faithful) hchanged
    | ok o' =>
      obtain ⟨made, hmade, hcast⟩ := Except.exists_of_bind_eq_ok hchanged
      obtain ⟨rfl, htype'⟩ := Object.castTo_eq_ok hcast
      have hgood : good o' := within o o' (he.buffered_good hbuffered) hmade
      have hsound := he.withObject hbuffered (htype'.trans htype.symm) hgood
      have hbuffered' : ({ e with object := some o' } : Entry).buffered = some o' := by
        unfold Entry.buffered at hbuffered ⊢
        split at hbuffered
        · next hcandidate => exact if_pos hcandidate
        · cases hbuffered
      have hupdate : update type h f t = .ok o' (t.put h { e with object := some o' }) := by
        simp only [update_eq, hrun, hchanged, put, SortedMap.modify_insert]
      rw [Step.after_of_ok hupdate]
      exact performs_put sound hsound hbuffered' fun faithful =>
        change_of_ok (hview faithful) hchanged

theorem attachTo_of_free (active : t.status = .active) (absent : t.entries.find? h = none)
    (free : t.snapshot.read h = none) : attachTo h o t = .ok () (t.put h (.fresh h o)) := by
  refine (guarded_eq active _).trans ((bind_of_ok rfl).trans ?_)
  simp only [absent, Snapshot.contains_eq_isSome_read, free]
  rfl

/-- Attaching works exactly where the snapshot has nothing. -/
theorem attachTo_cases (sound : t.Sound good) (active : t.status = .active) (h : Handle)
    (o : Object) :
    (t.snapshot.read h = none ∧ attachTo h o t = .ok () (t.put h (.fresh h o))) ∨
    ((∃ r, t.snapshot.read h = some r) ∧ ∃ fault, attachTo h o t = .error fault t) := by
  cases hfound : t.entries.find? h with
  | some e =>
    have hguarded : attachTo h o t =
        (Step.ofExcept (e.replaceFresh o) >>= fun e => setEntry h e) t := by
      refine (guarded_eq active _).trans ((bind_of_ok rfl).trans ?_)
      simp only [hfound]
    rcases (sound.entries h e hfound).replaceFresh o with ⟨absent, hreplace⟩ | ⟨stored, hreplace⟩
    · refine .inl ⟨absent, ?_⟩
      rw [hguarded, hreplace]
      rfl
    · refine .inr ⟨stored, .invalidOperation (.alreadyLoaded h), ?_⟩
      rw [hguarded, hreplace]
      rfl
  | none =>
    cases hread : t.snapshot.read h with
    | none => exact .inl ⟨rfl, attachTo_of_free active hfound hread⟩
    | some r =>
      refine .inr ⟨⟨r, rfl⟩, .invalidOperation (.alreadyCommitted h), ?_⟩
      refine (guarded_eq active _).trans ((bind_of_ok rfl).trans ?_)
      simp only [hfound, Snapshot.contains_eq_isSome_read, hread]
      rfl

theorem performs_attachTo (sound : t.Sound good) (active : t.status = .active) (h : Handle)
    {o : Object} (isGood : good o) :
    Performs good (View.attachTo h o) t ((attachTo h o).after t) := by
  have hcontains : t.toView.base.contains h = (t.snapshot.read h).isSome :=
    Snapshot.contains_eq_isSome_read _ _
  rcases attachTo_cases sound active h o with ⟨absent, hrun⟩ | ⟨⟨r, stored⟩, fault, hrun⟩
  · rw [Step.after_of_ok hrun]
    apply performs_put sound (.fresh o absent isGood) rfl
    intro _
    rw [View.attachTo, hcontains, absent]
    rfl
  · rw [Step.after_of_error hrun]
    apply (Loads.refl sound).performs
    intro _
    rw [View.attachTo, hcontains, stored]
    rfl

/-! ## Branches -/

/-- All entries of a sound transaction can be captured, and the frame keeps what they buffer. -/
theorem Sound.capture (sound : t.Sound good) :
    ∃ f, Frame.capture t.entries = .ok f ∧
      (∀ h saved, f.saved.find? h = some saved → saved.Sound good t.snapshot h) ∧
      ((∀ o, good o → o.Faithful) → f.overlay = Entries.overlay t.entries) := by
  obtain ⟨saved, hsaved, hlookup⟩ := t.entries.traverse_eq_ok
    (f := fun _ e => e.save) fun h e he => by
      obtain ⟨saved, hsave, -⟩ := (sound.entries h e he).save sound.stores
      exact ⟨saved, hsave⟩
  refine ⟨⟨saved⟩, ?_, fun h kept hkept => ?_, fun faithful => ?_⟩
  · rw [Frame.capture, hsaved]
    rfl
  · obtain ⟨e, he, hsave⟩ := SortedMap.find?_of_traverse hsaved hkept
    obtain ⟨saved', hsave', hsound, -⟩ := (sound.entries h e he).save sound.stores
    rw [hsave] at hsave'
    cases hsave'
    exact hsound
  · apply SortedMap.ext_find?
    intro h
    rw [Frame.find?_overlay, Entries.find?_overlay]
    change (saved.find? h).bind _ = _
    rw [hlookup]
    cases hfound : t.entries.find? h with
    | none => rfl
    | some e =>
      obtain ⟨kept, hsave, -, hbuffered⟩ := (sound.entries h e hfound).save sound.stores
      simp only [Option.bind_some, hsave]
      exact hbuffered faithful

/-- A capture has saved every entry. -/
theorem traverse_of_capture {f : Frame} (hcapture : Frame.capture t.entries = .ok f) :
    t.entries.traverse (fun _ e => e.save) = .ok f.saved := by
  rw [Frame.capture] at hcapture
  cases htraverse : t.entries.traverse (fun _ e => e.save) with
  | error fault =>
    rw [htraverse] at hcapture
    cases hcapture
  | ok saved =>
    rw [htraverse] at hcapture
    cases hcapture
    rfl

theorem startOr_eq {f : Frame} (active : t.status = .active)
    (hcapture : Frame.capture t.entries = .ok f) :
    startOr t = .ok () { t with frames := f :: t.frames } := by
  refine (guarded_eq active _).trans ((bind_of_ok rfl).trans ?_)
  rw [hcapture]
  rfl

theorem performs_startOr (sound : t.Sound good) (active : t.status = .active) :
    Performs good View.startOr t (startOr.after t) := by
  obtain ⟨f, hcapture, hf, hoverlay⟩ := sound.capture
  rw [Step.after_of_ok (startOr_eq active hcapture)]
  refine ⟨rfl, ⟨sound.stores, sound.entries, fun g hg => ?_⟩, fun faithful => ?_⟩
  · rcases List.mem_cons.mp hg with rfl | hg
    · exact hf
    · exact sound.frames g hg
  · simp only [toView, View.startOr, List.map_cons, hoverlay faithful]

/-- Taking the innermost frame off, or finding none. -/
theorem takeFrame_eq (t : Transaction) (missing : Misuse) :
    takeFrame missing t = match t.frames with
      | [] => .error (.invalidOperation missing) t
      | f :: outer => .ok f { t with frames := outer } := by
  apply (bind_of_ok rfl).trans
  cases t.frames <;> rfl

theorem endOrElse_of_none (active : t.status = .active) (closed : t.frames = []) :
    endOrElse t = .error (.invalidOperation .rollbackWithoutStart) t := by
  refine (guarded_eq active _).trans (bind_of_error ?_)
  rw [takeFrame_eq, closed]

/-- Rolling back the innermost branch is restoring it. -/
theorem endOrElse_eq {f : Frame} {outer : List Frame} (active : t.status = .active)
    (opened : t.frames = f :: outer) : endOrElse t = match f.restore t.entries with
      | .ok _ entries => .ok () { t with entries, frames := outer }
      | .error fault entries => .error fault { t with entries, frames := outer } := by
  have htake : takeFrame .rollbackWithoutStart t = .ok f { t with frames := outer } := by
    rw [takeFrame_eq, opened]
  refine (guarded_eq active _).trans ((bind_of_ok htake).trans ((bind_of_ok rfl).trans ?_))
  cases f.restore t.entries <;> rfl

theorem performs_tail (sound : t.Sound good) :
    Performs good View.endOr t { t with frames := t.frames.tail } where
  rest := rfl
  sound := ⟨sound.stores, sound.entries, fun f hf => sound.frames f (List.mem_of_mem_tail hf)⟩
  view _ := by simp only [toView, View.endOr, List.map_tail]

theorem endOr_eq {f : Frame} {outer : List Frame} (active : t.status = .active)
    (opened : t.frames = f :: outer) : endOr t = .ok () { t with frames := outer } := by
  refine (guarded_eq active _).trans ((bind_of_ok (a := f) ?_).trans rfl)
  rw [takeFrame_eq, opened]

theorem endOr_of_none (active : t.status = .active) (closed : t.frames = []) :
    endOr t = .error (.invalidOperation .endWithoutStart) t := by
  refine (guarded_eq active _).trans (bind_of_error ?_)
  rw [takeFrame_eq, closed]

theorem after_endOr (active : t.status = .active) :
    endOr.after t = { t with frames := t.frames.tail } := by
  cases hframes : t.frames with
  | nil => rw [Step.after_of_error (endOr_of_none active hframes), List.tail_nil, ← hframes]
  | cons f outer => rw [Step.after_of_ok (endOr_eq active hframes), List.tail_cons]

theorem performs_endOr (sound : t.Sound good) (active : t.status = .active) :
    Performs good View.endOr t (endOr.after t) := by
  rw [after_endOr active]
  exact performs_tail sound

section Restore

variable {f : Frame} {entries restored : Entries}

/-- A rollback that fails leaves no entries. -/
theorem empty_of_restore {fault : Error} (hrestore : f.restore entries = .error fault restored) :
    restored = ∅ := by
  rw [Frame.restore] at hrestore
  split at hrestore
  · cases hrestore
  · cases hrestore
    rfl

/-- What the branch has saved is rebuilt. -/
theorem find?_restore_saved {saved : SavedEntry} (hrestore : f.restore entries = .ok () restored)
    (hsaved : f.saved.find? h = some saved) :
    ∃ e, saved.restore h = .ok e ∧ restored.find? h = some e := by
  rw [Frame.restore] at hrestore
  split at hrestore
  · next rebuilt hrebuilt =>
    cases hrestore
    obtain ⟨e, he, hfound⟩ := SortedMap.find?_traverse hrebuilt hsaved
    exact ⟨e, he, by rw [SortedMap.find?_union, hfound, Option.some_or]⟩
  · cases hrestore

/-- Of everything else the read dependencies are left. -/
theorem find?_restore_unsaved (hrestore : f.restore entries = .ok () restored)
    (unsaved : f.saved.find? h = none) :
    restored.find? h = ((entries.find? h).bind Entry.origin).map Entry.deferred := by
  rw [Frame.restore] at hrestore
  split at hrestore
  · next rebuilt hrebuilt =>
    cases hrestore
    have habsent : rebuilt.find? h = none := by
      cases hfound : rebuilt.find? h with
      | none => rfl
      | some e =>
        obtain ⟨saved, hsaved, -⟩ := SortedMap.find?_of_traverse hrebuilt hfound
        rw [unsaved] at hsaved
        cases hsaved
    rw [SortedMap.find?_union, habsent, Option.none_or, Frame.laterReads, SortedMap.find?_filterMap,
      SortedMap.contains_eq_false_iff.mpr unsaved]
    cases entries.find? h <;> rfl
  · cases hrestore

/-- An entry after a rollback was saved, or only holds a read dependency. -/
theorem entry_of_restore (hrestore : f.restore entries = .ok () restored)
    (hfound : restored.find? h = some e) :
    (∃ saved, f.saved.find? h = some saved ∧ saved.restore h = .ok e) ∨
    ∃ old r, entries.find? h = some old ∧ old.origin = some r ∧ e = Entry.deferred r := by
  cases hsaved : f.saved.find? h with
  | some saved =>
    obtain ⟨e', hback, hfound'⟩ := find?_restore_saved hrestore hsaved
    rw [hfound] at hfound'
    cases hfound'
    exact .inl ⟨saved, rfl, hback⟩
  | none =>
    rw [find?_restore_unsaved hrestore hsaved] at hfound
    obtain ⟨r, hr, rfl⟩ := Option.map_eq_some_iff.mp hfound
    obtain ⟨old, hold, horigin⟩ := Option.bind_eq_some_iff.mp hr
    exact .inr ⟨old, r, hold, horigin, rfl⟩

end Restore

/-- Rolling back gives sound entries that buffer what the frame has kept. It fails only where an
object does not survive flattening. -/
theorem Sound.restore (sound : t.Sound good) {f : Frame}
    (hf : ∀ h saved, f.saved.find? h = some saved → saved.Sound good t.snapshot h) :
    (∃ entries, f.restore t.entries = .ok () entries ∧
      (∀ h e, entries.find? h = some e → e.Sound good t.snapshot h) ∧
      Entries.overlay entries = f.overlay) ∨
    (∃ fault, f.restore t.entries = .error fault ∅ ∧ ¬ ∀ o, good o → o.Faithful) := by
  cases hrebuilt : f.saved.traverse SavedEntry.restore with
  | error fault =>
    refine .inr ⟨fault, by rw [Frame.restore, hrebuilt], fun faithful => ?_⟩
    obtain ⟨h, saved, hsaved, hfault⟩ := SortedMap.error_of_traverse hrebuilt
    obtain ⟨e, hback⟩ := (hf h saved hsaved).exists_restore sound.stores faithful
    rw [hfault] at hback
    cases hback
  | ok rebuilt =>
    have hrestore : f.restore t.entries = .ok () ((f.laterReads t.entries).union rebuilt) := by
      rw [Frame.restore, hrebuilt]
    refine .inl ⟨_, hrestore, fun h e he => ?_, SortedMap.ext_find? fun h => ?_⟩
    · rcases entry_of_restore hrestore he with
        ⟨saved, hsaved, hback⟩ | ⟨old, r, hold, horigin, rfl⟩
      · exact ((hf h saved hsaved).restore sound.stores hback).1
      · exact .deferred sound.stores ((sound.entries h old hold).origin_stored horigin)
    · rw [Entries.find?_overlay, Frame.find?_overlay]
      cases hsaved : f.saved.find? h with
      | some saved =>
        obtain ⟨e, hback, hfound⟩ := find?_restore_saved hrestore hsaved
        rw [hfound]
        exact ((hf h saved hsaved).restore sound.stores hback).2
      | none =>
        rw [find?_restore_unsaved hrestore hsaved]
        cases (t.entries.find? h).bind Entry.origin <;> rfl

theorem performs_endOrElse (sound : t.Sound good) (active : t.status = .active) :
    Performs good View.endOrElse t (endOrElse.after t) := by
  cases hframes : t.frames with
  | nil =>
    have hrun := endOrElse_of_none active hframes
    rw [Step.after_of_error hrun]
    apply (Loads.refl sound).performs
    intro _
    simp only [View.endOrElse, toView, hframes, List.map_nil]
  | cons f outer =>
    have hrun := endOrElse_eq active hframes
    have houter : ∀ g ∈ outer, ∀ h saved, g.saved.find? h = some saved →
        saved.Sound good t.snapshot h := fun g hg =>
      sound.frames g (by rw [hframes]; exact List.mem_cons_of_mem _ hg)
    rcases sound.restore (sound.frames f (by rw [hframes]; exact List.mem_cons_self)) with
      ⟨entries, hrestore, hentries, hoverlay⟩ | ⟨fault, hrestore, hunfaithful⟩
    · rw [hrestore] at hrun
      rw [Step.after_of_ok hrun]
      refine ⟨rfl, ⟨sound.stores, hentries, houter⟩, fun _ => ?_⟩
      simp only [View.endOrElse, toView, hframes, List.map_cons, hoverlay]
    · rw [hrestore] at hrun
      rw [Step.after_of_error hrun]
      refine ⟨rfl, ⟨sound.stores, fun h e he => ?_, houter⟩, fun faithful => ?_⟩
      · cases he
      · exact absurd faithful hunfaithful

/-! ## Any operation -/

/-- Every operation of an active transaction does to the view what it ought to. -/
theorem performs {op : Op} (within : op.Within good) (sound : t.Sound good)
    (active : t.status = .active) : Performs good (View.perform op) t (op.run.after t) := by
  cases op with
  | read type h =>
    rw [Op.run, Step.after_discard]
    exact (OnlyLoads.read type h t sound).performs fun _ => rfl
  | write type h =>
    rw [Op.run, Step.after_discard]
    exact performs_write sound active type h
  | update type h f =>
    rw [Op.run, Step.after_discard]
    exact performs_update sound active type h within
  | attachTo h o => exact performs_attachTo sound active h within
  | load type h policy =>
    rw [Op.run, Step.after_discard]
    exact (OnlyLoads.load type h policy t sound).performs fun _ => rfl
  | startOr => exact performs_startOr sound active
  | endOr => exact performs_endOr sound active
  | endOrElse => exact performs_endOrElse sound active
  | dropFrame => exact performs_tail sound

theorem ensureActive_of_ended (ended : t.status ≠ .active) :
    ensureActive t = .error (.deadTransaction t.id t.status.name) t := by
  cases hstatus : t.status with
  | active => exact absurd hstatus ended
  | committed v => simp only [ensureActive, hstatus]
  | aborted reason => simp only [ensureActive, hstatus]

/-- A transaction that has ended is left alone, but for its branches, of which it has none. -/
theorem after_of_ended (ended : t.status ≠ .active) (op : Op) :
    op.run.after t = t ∨ op = .dropFrame := by
  have hended := ensureActive_of_ended ended
  cases op with
  | dropFrame => exact .inr rfl
  | read type h | write type h | load type h policy =>
    rw [Op.run, Step.after_discard]
    exact .inl (Step.after_of_error (bind_of_error hended))
  | update type h f =>
    rw [Op.run, Step.after_discard]
    exact .inl (Step.after_of_error (bind_of_error (bind_of_error hended)))
  | attachTo h o | startOr | endOr | endOrElse =>
    exact .inl (Step.after_of_error (bind_of_error hended))

/-- Every operation keeps a transaction sound, and what it is apart from its entries and branches. -/
theorem performs_soundly {op : Op} (within : op.Within good) (sound : t.Sound good) :
    op.run.after t = { t with
      entries := (op.run.after t).entries, frames := (op.run.after t).frames } ∧
    (op.run.after t).Sound good := by
  by_cases active : t.status = .active
  · have hperforms := performs within sound active
    exact ⟨hperforms.rest, hperforms.sound⟩
  · rcases after_of_ended active op with hstill | rfl
    · rw [hstill]
      exact ⟨rfl, sound⟩
    · have hperforms := performs_tail sound
      exact ⟨hperforms.rest, hperforms.sound⟩

end Transaction

end TransactionalHeap
