import TransactionalHeap.Object.Stock
import TransactionalHeap.Proofs.Transaction.Simulation

/-!
# Well-formed entries

Five statuses, an object that may be there, an origin that may be there and a materializer of its own
allow for many entries that make no sense. In a well-formed one the parts fit each other, and then it
can be saved, captured and prepared for a commit, and its object can be rebuilt unless the stored
fields do not fit. Whatever is done to the entries of a table, saved ones brought back included, leaves
well-formed entries (`EntryTable.wellFormed_run`).

Nothing here is about the snapshot that the entries were loaded from.
-/
namespace TransactionalHeap

section

variable [Transactables]

/-- The record is one of the object, and names the materializer of its own type. -/
structure Record.Proper (h : Handle) (r : Record) : Prop where
  handle : r.handle = h
  materializer : r.materializer = ⟨r.type⟩

/-- The parts of an entry fit each other, and the handle it is found under. -/
structure Entry.WellFormed (h : Handle) (e : Entry) : Prop where
  keyed : e.handle = h
  origin_iff : e.origin = none ↔ e.status = .fresh
  /-- Fresh and dirty entries are materialized. -/
  candidate : e.status.isWriteCandidate = true → e.object.isSome = true
  object_type : ∀ o, e.object = some o → e.materializer = ⟨o.type⟩
  origin_type : ∀ r, e.origin = some r → r.Proper h ∧ e.materializer = ⟨r.type⟩

/-- The same of a saved entry, whose object is flattened. -/
structure SavedEntry.WellFormed (h : Handle) (saved : SavedEntry) : Prop where
  origin_iff : saved.origin = none ↔ saved.status = .fresh
  candidate : saved.status.isWriteCandidate = true → saved.state.isSome = true
  origin_type : ∀ r, saved.origin = some r → r.Proper h ∧ saved.materializer = ⟨r.type⟩

namespace Entry

variable {h : Handle} {e e' : Entry} {o : Object}

theorem wellFormed_fresh (h : Handle) (o : Object) : (Entry.fresh h o).WellFormed h where
  keyed := rfl
  origin_iff := ⟨fun _ => rfl, fun _ => rfl⟩
  candidate _ := rfl
  object_type o' ho' := by
    cases ho'
    rfl
  origin_type r hr := by cases hr

theorem wellFormed_deferred {r : Record} (proper : r.Proper h) : (Entry.deferred r).WellFormed h where
  keyed := proper.handle
  origin_iff := ⟨nofun, nofun⟩
  candidate hcandidate := by cases hcandidate
  object_type o ho := by cases ho
  origin_type r' hr' := by
    cases hr'
    exact ⟨proper, proper.materializer⟩

namespace WellFormed

theorem exists_live (wf : e.WellFormed h) (candidate : e.status.isWriteCandidate = true) :
    ∃ o, e.object = some o ∧ e.live = .ok o := by
  obtain ⟨o, ho⟩ := Option.isSome_iff_exists.mp (wf.candidate candidate)
  exact ⟨o, ho, live_of_object ho⟩

/-- Another object of the materializer's type may be put in. -/
theorem withObject (wf : e.WellFormed h) (fits : e.materializer = ⟨o.type⟩) :
    WellFormed h { e with object := some o } where
  keyed := wf.keyed
  origin_iff := wf.origin_iff
  candidate _ := rfl
  object_type o' ho' := by
    cases ho'
    exact fits
  origin_type := wf.origin_type

/-- A loaded entry may change its status to another one of loaded entries. -/
theorem withStatus (wf : e.WellFormed h) {status : EntryStatus} (loaded : e.status ≠ .fresh)
    (notFresh : status ≠ .fresh) (candidate : status.isWriteCandidate = true → e.object.isSome = true) :
    WellFormed h { e with status } where
  keyed := wf.keyed
  origin_iff := ⟨fun hnone => absurd (wf.origin_iff.mp hnone) loaded, fun hfresh =>
    absurd hfresh notFresh⟩
  candidate := candidate
  object_type := wf.object_type
  origin_type := wf.origin_type

/-- There is an object, or something to rebuild it from. -/
theorem object_or_origin (wf : e.WellFormed h) :
    (∃ o, e.object = some o) ∨ e.object = none ∧ ∃ r, e.origin = some r := by
  cases hobject : e.object with
  | some o => exact .inl ⟨o, rfl⟩
  | none =>
    refine .inr ⟨rfl, Option.ne_none_iff_exists'.mp fun hnone => ?_⟩
    have hsome := wf.candidate (by rw [wf.origin_iff.mp hnone]; rfl)
    rw [hobject] at hsome
    cases hsome

/-- The object of an entry is there already, or it is rebuilt, or its origin does not rebuild. -/
theorem materialize (wf : e.WellFormed h) :
    (∃ e', e.materialize = .ok e' ∧ e'.WellFormed h) ∨
    ∃ r fault, e.origin = some r ∧ r.rebuild = .error fault ∧ e.materialize = .error fault := by
  rcases wf.object_or_origin with ⟨o, ho⟩ | ⟨hobject, r, hr⟩
  · exact .inl ⟨e, by simp only [Entry.materialize, ho], wf⟩
  · have hrun : e.materialize = r.rebuild.map fun o => { e with object := some o } := by
      simp only [Entry.materialize, hobject, hr]
      rfl
    cases hrebuild : r.rebuild with
    | ok o =>
      obtain ⟨⟨-, hmaterializer⟩, htype⟩ := wf.origin_type r hr
      have hfits := Materializer.type_of_run hrebuild
      rw [hrebuild] at hrun
      refine .inl ⟨_, hrun, wf.withObject ?_⟩
      rw [htype, hfits, hmaterializer]
    | error fault =>
      rw [hrebuild] at hrun
      exact .inr ⟨r, fault, hr, hrebuild, hrun⟩

/-- There are fields to copy. -/
theorem dematerialize (wf : e.WellFormed h) : ∃ fields, e.dematerialize = .ok fields := by
  rcases wf.object_or_origin with ⟨o, ho⟩ | ⟨hobject, r, hr⟩
  · exact ⟨o.dematerialize, by simp only [Entry.dematerialize, ho]⟩
  · exact ⟨r.fields, by simp only [Entry.dematerialize, hobject, hr]⟩

/-- Opening for a change gives the object, of the type, and makes an unchanged entry dirty. -/
theorem getForWrite (wf : e.WellFormed h) {type : ObjectType}
    (run : e.getForWrite type = .ok (o, e')) :
    e'.WellFormed h ∧ e'.materializer = ⟨type⟩ ∧ o.type = type := by
  obtain ⟨o', hget, hrest⟩ := Except.exists_of_bind_eq_ok run
  obtain ⟨o'', hlive, hcast⟩ := Except.exists_of_bind_eq_ok hget
  have hobject := object_of_live hlive
  obtain ⟨rfl, rfl⟩ := Object.castTo_eq_ok hcast
  have hfits := wf.object_type _ hobject
  cases hstatus : e.status with
  | clean | committed =>
    simp only [hstatus] at hrest
    cases hrest
    refine ⟨wf.withStatus (by simp [hstatus]) (by simp) fun _ => ?_, hfits, rfl⟩
    rw [hobject]
    rfl
  | fresh | dirty | conflict =>
    simp only [hstatus] at hrest
    cases hrest
    exact ⟨wf, hfits, rfl⟩

/-- Preparing a commit never fails, and what it would write has the materializer of its own type. -/
theorem prepareWrite (wf : e.WellFormed h) : ∃ write e', e.prepareWrite = .ok (write, e') ∧
    e'.WellFormed h ∧ ∀ w, write = some w → w.handle = h ∧ w.materializer = ⟨w.type⟩ := by
  cases hcandidate : e.status.isWriteCandidate with
  | false => exact ⟨none, e, by simp [Entry.prepareWrite, hcandidate], wf, nofun⟩
  | true =>
    obtain ⟨o, ho, hlive⟩ := wf.exists_live hcandidate
    have hrun : e.prepareWrite = if e.isUnchanged o then .ok (none, { e with status := .clean })
        else .ok (some ⟨e.handle, o.type, e.materializer, o.dematerialize⟩, e) := by
      simp only [Entry.prepareWrite, hcandidate, if_true, hlive, bind, Except.bind]
      rfl
    cases hunchanged : e.isUnchanged o with
    | true =>
      have hdirty : e.status = .dirty := by
        simp only [isUnchanged, Bool.and_eq_true, decide_eq_true_eq] at hunchanged
        exact hunchanged.1
      refine ⟨none, { e with status := .clean }, by rw [hrun, hunchanged]; rfl, ?_, nofun⟩
      exact wf.withStatus (by simp [hdirty]) (by simp) (by simp [EntryStatus.isWriteCandidate])
    | false =>
      refine ⟨_, e, by rw [hrun, hunchanged]; rfl, wf, fun w hw => ?_⟩
      cases hw
      exact ⟨wf.keyed, wf.object_type o ho⟩

/-- Saving never fails. -/
theorem save (wf : e.WellFormed h) : ∃ saved, e.save = .ok saved ∧ saved.WellFormed h := by
  cases hcandidate : e.status.isWriteCandidate with
  | true =>
    obtain ⟨o, -, hlive⟩ := wf.exists_live hcandidate
    refine ⟨⟨e.origin, e.materializer, e.status, some o.dematerialize⟩, ?_, wf.origin_iff,
      fun _ => rfl, wf.origin_type⟩
    cases hstatus : e.status <;>
      simp_all [Entry.save, EntryStatus.isWriteCandidate, bind, Except.bind, pure, Except.pure]
  | false =>
    refine ⟨⟨e.origin, e.materializer, e.status, none⟩, ?_, wf.origin_iff, ?_, wf.origin_type⟩
    · cases hstatus : e.status <;> simp_all [Entry.save, EntryStatus.isWriteCandidate]
    · simp [hcandidate]

end WellFormed

end Entry

/-- A saved entry is brought back well formed, or what it has saved does not rebuild. -/
theorem SavedEntry.WellFormed.restore {h : Handle} {saved : SavedEntry} (wf : saved.WellFormed h) :
    (∃ e, saved.restore h = .ok e ∧ e.WellFormed h) ∨
    ∃ fields fault, saved.state = some fields ∧ saved.materializer.run fields = .error fault ∧
      saved.restore h = .error fault := by
  have hentry : ∀ object, (∀ o, object = some o → saved.materializer = ⟨o.type⟩) →
      (saved.status.isWriteCandidate = true → object.isSome = true) →
      Entry.WellFormed h ⟨h, object, saved.origin, saved.materializer, saved.status⟩ :=
    fun object htype hcandidate => ⟨rfl, wf.origin_iff, hcandidate, htype, wf.origin_type⟩
  cases hstate : saved.state with
  | some fields =>
    have hrun : saved.restore h = (saved.materializer.run fields).map fun o =>
        ⟨h, some o, saved.origin, saved.materializer, saved.status⟩ := by
      simp only [SavedEntry.restore, hstate]
      rfl
    cases hobject : saved.materializer.run fields with
    | ok o =>
      rw [hobject] at hrun
      refine .inl ⟨_, hrun, hentry (some o) (fun o' ho' => ?_) fun _ => rfl⟩
      cases ho'
      rw [Materializer.type_of_run hobject]
    | error fault =>
      rw [hobject] at hrun
      exact .inr ⟨fields, fault, rfl, hobject, hrun⟩
  | none =>
    have hloaded : saved.status.isWriteCandidate = false := by
      rw [← Bool.not_eq_true]
      intro hcandidate
      have hsome := wf.candidate hcandidate
      rw [hstate] at hsome
      cases hsome
    cases horigin : saved.origin with
    | none =>
      rw [wf.origin_iff.mp horigin] at hloaded
      cases hloaded
    | some r =>
      refine .inl ⟨_, ?_, hentry none (fun _ hnone => by cases hnone) (by simp [hloaded])⟩
      simp only [SavedEntry.restore, hstate, horigin]

/-! ## Tables of entries -/

/-- Entries, each under its handle, and what was captured of them at times. -/
structure EntryTable where
  entries : Entries := ∅
  captured : List Frame := []

/-- What may be done to the entries of a table. A change of an object that was opened for one keeps
its type, and whatever was captured may be restored at any time. -/
inductive EntryOp where
  | fresh (h : Handle) (o : Object)
  | deferred (r : Record)
  | materialize (h : Handle)
  | getForWrite (h : Handle) (type : ObjectType) (change : Object → Object)
  | prepareWrite (h : Handle)
  | remove (h : Handle)
  | capture
  | restore (n : Nat)

namespace EntryTable

/-- An entry makes way for what a step makes of it, unless the step fails. -/
def onEntry (h : Handle) (step : Entry → Except Error Entry) (s : EntryTable) : EntryTable :=
  match s.entries.find? h with
  | none => s
  | some e =>
    match step e with
    | .ok e => { s with entries := s.entries.insert h e }
    | .error _ => s

/-- Carry an operation out; one that fails leaves what it leaves. -/
def step (s : EntryTable) : EntryOp → EntryTable
  | .fresh h o => { s with entries := s.entries.insert h (.fresh h o) }
  | .deferred r => { s with entries := s.entries.insert r.handle (.deferred r) }
  | .materialize h => s.onEntry h Entry.materialize
  | .getForWrite h type change => s.onEntry h fun e => (e.getForWrite type).map fun (o, e) =>
      { e with object := some (if (change o).type = type then change o else o) }
  | .prepareWrite h => s.onEntry h fun e => e.prepareWrite.map Prod.snd
  | .remove h => { s with entries := s.entries.erase h }
  | .capture =>
    match Frame.capture s.entries with
    | .ok f => { s with captured := s.captured ++ [f] }
    | .error _ => s
  | .restore n =>
    match s.captured[n]? with
    | some f => { s with entries := f.restore.after s.entries }
    | none => s

/-- An empty table after all that was done to it. -/
def run (ops : List EntryOp) : EntryTable := ops.foldl step {}

/-- All entries are well formed, and so is all that was captured. -/
structure WellFormed (s : EntryTable) : Prop where
  entries : ∀ h e, s.entries.find? h = some e → e.WellFormed h
  captured : ∀ f ∈ s.captured, ∀ h saved, f.saved.find? h = some saved → saved.WellFormed h

variable {s : EntryTable}

namespace WellFormed

theorem insert (wf : s.WellFormed) {h : Handle} {e : Entry} (he : e.WellFormed h) :
    WellFormed { s with entries := s.entries.insert h e } where
  entries other e' he' := by
    rcases SortedMap.find?_of_insert he' with ⟨rfl, rfl⟩ | ⟨-, he'⟩
    · exact he
    · exact wf.entries other e' he'
  captured := wf.captured

theorem onEntry (wf : s.WellFormed) {h : Handle} {step : Entry → Except Error Entry}
    (kept : ∀ e e', e.WellFormed h → step e = .ok e' → e'.WellFormed h) :
    (s.onEntry h step).WellFormed := by
  unfold EntryTable.onEntry
  split
  · exact wf
  · next e he =>
    split
    · next e' hstep => exact wf.insert (kept e e' (wf.entries h e he) hstep)
    · exact wf

/-- Capturing never fails. -/
theorem capture (wf : s.WellFormed) : ∃ f, Frame.capture s.entries = .ok f ∧
    ∀ h saved, f.saved.find? h = some saved → saved.WellFormed h := by
  obtain ⟨n, hn, -⟩ := s.entries.traverse_eq_ok (f := fun _ e => e.save) fun h e he => by
    obtain ⟨saved, hsave, -⟩ := (wf.entries h e he).save
    exact ⟨saved, hsave⟩
  refine ⟨⟨n⟩, by rw [Frame.capture, hn]; rfl, fun h saved hsaved => ?_⟩
  obtain ⟨e, he, hsave⟩ := SortedMap.find?_of_traverse hn hsaved
  obtain ⟨saved', hsave', hwf⟩ := (wf.entries h e he).save
  rw [hsave] at hsave'
  cases hsave'
  exact hwf

/-- Restoring leaves well-formed entries, or it leaves none because something saved does not rebuild. -/
theorem restore (wf : s.WellFormed) {f : Frame} (isCaptured : f ∈ s.captured) :
    (∃ entries, f.restore s.entries = .ok () entries ∧
      ∀ h e, entries.find? h = some e → e.WellFormed h) ∨
    ∃ h saved fields fault, f.saved.find? h = some saved ∧ saved.state = some fields ∧
      saved.materializer.run fields = .error fault ∧ f.restore s.entries = .error fault ∅ := by
  have hf := wf.captured f isCaptured
  cases hrebuilt : f.saved.traverse SavedEntry.restore with
  | error fault =>
    obtain ⟨h, saved, hsaved, hfault⟩ := SortedMap.error_of_traverse hrebuilt
    rcases (hf h saved hsaved).restore with ⟨e, hok, -⟩ | ⟨fields, cause, hstate, hrun, hcause⟩
    · rw [hok] at hfault
      cases hfault
    · rw [hcause] at hfault
      cases hfault
      exact .inr ⟨h, saved, fields, fault, hsaved, hstate, hrun, by rw [Frame.restore, hrebuilt]⟩
  | ok rebuilt =>
    have hrestore : f.restore s.entries = .ok () ((f.laterReads s.entries).union rebuilt) := by
      rw [Frame.restore, hrebuilt]
    refine .inl ⟨_, hrestore, fun h e he => ?_⟩
    rcases Transaction.entry_of_restore hrestore he with
      ⟨saved, hsaved, hback⟩ | ⟨old, r, hold, horigin, rfl⟩
    · rcases (hf h saved hsaved).restore with ⟨e', hok, hwf⟩ | ⟨_, _, -, -, hcause⟩
      · rw [hback] at hok
        cases hok
        exact hwf
      · rw [hback] at hcause
        cases hcause
    · exact Entry.wellFormed_deferred ((wf.entries h old hold).origin_type r horigin).1

/-- Every operation leaves the table well formed, if what it brings in from a heap is proper. -/
theorem step (wf : s.WellFormed) {op : EntryOp}
    (proper : ∀ r, op = .deferred r → r.Proper r.handle) : (s.step op).WellFormed := by
  cases op with
  | fresh h o => exact wf.insert (Entry.wellFormed_fresh h o)
  | deferred r => exact wf.insert (Entry.wellFormed_deferred (proper r rfl))
  | materialize h =>
    refine wf.onEntry fun e e' he hrun => ?_
    rcases he.materialize with ⟨made, hmade, hwf⟩ | ⟨_, _, -, -, hfault⟩
    · rw [hmade] at hrun
      cases hrun
      exact hwf
    · rw [hfault] at hrun
      cases hrun
  | getForWrite h type change =>
    refine wf.onEntry fun e e' he hrun => ?_
    cases hopened : e.getForWrite type with
    | error fault =>
      rw [hopened] at hrun
      cases hrun
    | ok opened =>
      obtain ⟨o, e''⟩ := opened
      obtain ⟨hwf, hfits, htype⟩ := he.getForWrite hopened
      rw [hopened] at hrun
      cases hrun
      refine hwf.withObject (hfits.trans ?_)
      split
      · next hsame => rw [hsame]
      · rw [htype]
  | prepareWrite h =>
    refine wf.onEntry fun e e' he hrun => ?_
    obtain ⟨write, settled, hprepared, hwf, -⟩ := he.prepareWrite
    rw [hprepared] at hrun
    cases hrun
    exact hwf
  | remove h =>
    exact ⟨fun other e he => wf.entries other e (SortedMap.find?_of_erase he).2, wf.captured⟩
  | capture =>
    obtain ⟨f, hcapture, hf⟩ := wf.capture
    simp only [EntryTable.step, hcapture]
    refine ⟨wf.entries, fun g hg => ?_⟩
    rcases List.mem_append.mp hg with hg | hg
    · exact wf.captured g hg
    · obtain rfl := List.mem_singleton.mp hg
      exact hf
  | restore n =>
    simp only [EntryTable.step]
    split
    · next f hfound =>
      refine ⟨?_, wf.captured⟩
      rcases wf.restore (List.mem_of_getElem? hfound) with
        ⟨entries, hrun, hwf⟩ | ⟨_, _, _, _, -, -, -, hrun⟩
      · rwa [Step.after_of_ok hrun]
      · rw [Step.after_of_error hrun]
        exact fun h e he => by cases he
    · exact wf

theorem foldl (wf : s.WellFormed) {ops : List EntryOp}
    (proper : ∀ r, .deferred r ∈ ops → r.Proper r.handle) : (ops.foldl EntryTable.step s).WellFormed := by
  induction ops generalizing s with
  | nil => exact wf
  | cons op later ih =>
    have hfirst := wf.step fun r hop => proper r (hop ▸ List.mem_cons_self)
    exact ih hfirst fun r hr => proper r (List.mem_cons_of_mem _ hr)

end WellFormed

/-- Whatever is done to the entries of a table leaves them well formed. -/
theorem wellFormed_run {ops : List EntryOp}
    (proper : ∀ r, .deferred r ∈ ops → r.Proper r.handle) : (run ops).WellFormed :=
  WellFormed.foldl ⟨fun _ _ he => (by cases he), fun _ hf => (by cases hf)⟩ proper

end EntryTable

end

namespace EntryTable

/-- A counter is loaded, opened and changed, then forgotten, and brought back as it was captured. -/
example :
    let r := (PendingRecord.ofObject ⟨7⟩ (.counter 1)).stamp 3
    let s := run [.deferred r, .materialize ⟨7⟩, .getForWrite ⟨7⟩ .counter fun _ => .counter 2, .capture,
      .remove ⟨7⟩, .restore 0]
    s.entries.find? ⟨7⟩ = some ⟨⟨7⟩, some (.counter 2), some r, ⟨.counter⟩, .dirty⟩ := by
  rfl

end EntryTable

section

variable [Transactables]

namespace EntryTable

variable {s : EntryTable}

/-- The table can be worked with: no operation on it fails for a reason of its own. -/
structure Usable (s : EntryTable) : Prop where
  /-- There is an origin, and it is the origin that does not rebuild. -/
  materialize : ∀ h e, s.entries.find? h = some e → ∀ fault, e.materialize = .error fault →
    ∃ r, e.origin = some r ∧ r.rebuild = .error fault
  save : ∀ h e, s.entries.find? h = some e → ∃ saved, e.save = .ok saved
  capture : ∃ f, Frame.capture s.entries = .ok f
  /-- There is a saved state, and it is the state that does not rebuild. -/
  restore : ∀ f ∈ s.captured, ∀ fault left, f.restore s.entries = .error fault left →
    ∃ h saved fields, f.saved.find? h = some saved ∧ saved.state = some fields ∧
      saved.materializer.run fields = .error fault
  /-- What a commit would write has the materializer of its own type. -/
  prepareWrite : ∀ h e, s.entries.find? h = some e → ∃ write e', e.prepareWrite = .ok (write, e') ∧
    ∀ w, write = some w → w.handle = h ∧ w.materializer = ⟨w.type⟩

theorem WellFormed.usable (wf : s.WellFormed) : s.Usable where
  materialize h e he fault hfault := by
    rcases (wf.entries h e he).materialize with ⟨e', hok, -⟩ | ⟨r, cause, hr, hrebuild, hcause⟩
    · rw [hok] at hfault
      cases hfault
    · rw [hcause] at hfault
      cases hfault
      exact ⟨r, hr, hrebuild⟩
  save h e he := by
    obtain ⟨saved, hsave, -⟩ := (wf.entries h e he).save
    exact ⟨saved, hsave⟩
  capture := by
    obtain ⟨f, hcapture, -⟩ := wf.capture
    exact ⟨f, hcapture⟩
  restore f hf fault left hfault := by
    rcases wf.restore hf with ⟨entries, hok, -⟩ | ⟨h, saved, fields, cause, hsaved, hstate, hrun, hcause⟩
    · rw [hok] at hfault
      cases hfault
    · rw [hcause] at hfault
      cases hfault
      exact ⟨h, saved, fields, hsaved, hstate, hrun⟩
  prepareWrite h e he := by
    obtain ⟨write, e', hrun, -, hwrite⟩ := (wf.entries h e he).prepareWrite
    exact ⟨write, e', hrun, hwrite⟩

end EntryTable

end

end TransactionalHeap
