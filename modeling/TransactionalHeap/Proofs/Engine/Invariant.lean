import TransactionalHeap.Proofs.Engine.Effects

/-!
# Every session is sound

The heap of a session has been built by commits alone, every transaction reads a snapshot of that
heap's past and has sound entries, and only active transactions are inside calls. One action keeps
this (`Core.Moves.sound`), so it holds after every run (`Session.sound_run`).
-/
namespace TransactionalHeap

variable [Transactables]

theorem Snapshot.mem_chain_of_asOf {s past : Snapshot} {v : Version} (h : s.asOf v = .ok past) :
    past ∈ s.chain := by
  induction s with
  | genesis v' =>
    unfold asOf at h
    split at h
    · cases h
      exact List.mem_singleton_self _
    · cases h
  | commit v' tree parent ih =>
    unfold asOf at h
    split at h
    · cases h
      exact List.mem_cons_self
    · exact List.mem_cons_of_mem _ (ih h)

namespace Transaction

variable {good : Object → Prop} {t t' : Transaction}

/-- Without entries and branches there is only the snapshot to be sound. -/
theorem sound_of_empty (stores : t.snapshot.Stores good) (entries : t.entries = ∅)
    (frames : t.frames = []) : t.Sound good where
  stores := stores
  entries h e he := by
    rw [entries] at he
    cases he
  frames f hf := by
    rw [frames] at hf
    cases hf

theorem Ended.sound (ended : t.Ended t') (sound : t.Sound good) : t'.Sound good :=
  sound_of_empty (by rw [ended.snapshot_eq]; exact sound.stores) ended.entries ended.frames

end Transaction

namespace Core

variable {good : Object → Prop} {c c' : Core} {id : TxnId} {t t' : Transaction}

/-- A transaction that fits goes on to fit while the heap and the numbering grow. -/
theorem Belongs.mono (belongs : c.Belongs good id t)
    (next : c.nextTransaction ≤ c'.nextTransaction)
    (grown : ∀ s ∈ c.head.chain, s ∈ c'.head.chain) : c'.Belongs good id t where
  id_eq := belongs.id_eq
  begun := Nat.lt_of_lt_of_le belongs.begun next
  past := grown _ belongs.past
  sound := belongs.sound

/-- Every snapshot of the past stores good objects. -/
theorem Sound.stores (sound : c.Sound good) {past : Snapshot} (hpast : past ∈ c.head.chain) :
    past.Stores good :=
  (sound.built.of_mem_chain hpast).1.stores sound.lasting

theorem Sound.calls_held (sound : c.Sound good) {call : InCall} (held : c.held.find? id = some t)
    (calls : c.calls.find? id = some call) : Calls t call := by
  obtain ⟨u, hu, hcalls⟩ := sound.calls id call calls
  rw [held] at hu
  cases hu
  exact hcalls

/-- One transaction is put in place and the others stay, while the heap may grow. -/
theorem Sound.put (sound : c.Sound good) (built : Snapshot.Built (PendingRecord.Of good) c'.head)
    (grown : ∀ s ∈ c.head.chain, s ∈ c'.head.chain)
    (next : c.nextTransaction ≤ c'.nextTransaction) (held : c'.held = c.held.insert id t')
    (belongs : c'.Belongs good id t')
    (calls : ∀ other call, c'.calls.find? other = some call →
      other = id ∧ Calls t' call ∨ other ≠ id ∧ c.calls.find? other = some call) :
    c'.Sound good where
  lasting := sound.lasting
  built := built
  held other u hu := by
    rw [held] at hu
    rcases SortedMap.find?_of_insert hu with ⟨rfl, rfl⟩ | ⟨-, hu⟩
    · exact belongs
    · exact (sound.held other u hu).mono next grown
  calls other call hcall := by
    rw [held]
    rcases calls other call hcall with ⟨rfl, hcalls⟩ | ⟨hne, hcall⟩
    · exact ⟨t', SortedMap.find?_insert_self _ _ _, hcalls⟩
    · obtain ⟨u, hu, hcalls⟩ := sound.calls other call hcall
      exact ⟨u, (SortedMap.find?_insert_of_ne _ _ hne).trans hu, hcalls⟩

/-- The same where the heap and the numbering stay as well. -/
theorem Sound.replace (sound : c.Sound good) (head : c'.head = c.head)
    (next : c'.nextTransaction = c.nextTransaction) (held : c'.held = c.held.insert id t')
    (old : c.held.find? id = some t) (id_eq : t'.id = t.id)
    (past : t'.snapshot ∈ c.head.chain) (tSound : t'.Sound good)
    (calls : ∀ other call, c'.calls.find? other = some call →
      other = id ∧ Calls t' call ∨ other ≠ id ∧ c.calls.find? other = some call) :
    c'.Sound good := by
  have hbelongs := sound.held id t old
  refine sound.put (by rw [head]; exact sound.built) (fun s hs => by rwa [head])
    (Nat.le_of_eq next.symm) held ⟨id_eq.trans hbelongs.id_eq, ?_, by rwa [head], tSound⟩ calls
  rw [next]
  exact hbelongs.begun

/-- A transaction that is in no call acts, and who is in a call does not change. -/
theorem calls_of_free (free : c.calls.find? id = none) {other : TxnId} {call : InCall}
    (hcall : c.calls.find? other = some call) : other ≠ id ∧ c.calls.find? other = some call := by
  refine ⟨fun hsame => ?_, hcall⟩
  rw [hsame, free] at hcall
  cases hcall

/-- One action of good objects keeps a session sound. -/
theorem Moves.sound {a : Action} {log : Option Committed} (moves : Moves good c a log c')
    (within : a.Within good) (sound : c.Sound good) : c'.Sound good := by
  cases moves with
  | nothing mayRefuse => exact sound
  | usedHandle absent =>
    exact ⟨sound.lasting, sound.built,
      fun id t held => (sound.held id t held).mono (Nat.le_refl _) fun _ hs => hs, sound.calls⟩
  | @began a past which =>
    have hpast : past ∈ c.head.chain := by
      rcases which with ⟨-, rfl⟩ | ⟨v, -, -, hfound⟩
      · exact Snapshot.mem_chain_self _
      · exact Snapshot.mem_chain_of_asOf hfound
    refine sound.put sound.built (fun s hs => hs) (Nat.le_succ _) rfl
      ⟨rfl, Nat.lt_succ_self _, hpast, Transaction.sound_of_empty (sound.stores hpast) rfl rfl⟩
      fun other call hcall => ?_
    obtain ⟨u, hu, -⟩ := sound.calls other call hcall
    exact .inr ⟨Nat.ne_of_lt (sound.held other u hu).begun, hcall⟩
  | @dropped id t held free =>
    refine ⟨sound.lasting, sound.built, fun other u hu => ?_, fun other call hcall => ?_⟩
    · obtain ⟨-, hu⟩ := SortedMap.find?_of_erase hu
      exact (sound.held other u hu).mono (Nat.le_refl _) fun _ hs => hs
    · obtain ⟨hne, -⟩ := calls_of_free free hcall
      obtain ⟨u, hu, hcalls⟩ := sound.calls other call hcall
      exact ⟨u, (SortedMap.find?_erase_of_ne _ hne).trans hu, hcalls⟩
  | @performed id op t held free =>
    have hbelongs := sound.held id t held
    obtain ⟨hrest, hsound⟩ := Transaction.performs_soundly within hbelongs.sound
    refine sound.replace rfl rfl rfl held (by rw [hrest]) ?_ hsound fun other call hcall =>
      .inr (calls_of_free free hcall)
    rw [hrest]
    exact hbelongs.past
  | @attached id o t held free =>
    have hbelongs := sound.held id t held
    have within' : (Op.attachTo ⟨c.nextHandle⟩ o).Within good := within
    obtain ⟨hrest, hsound⟩ := Transaction.performs_soundly within' hbelongs.sound
    refine sound.replace rfl rfl rfl held (by rw [hrest]) ?_ hsound fun other call hcall =>
      .inr (calls_of_free free hcall)
    rw [hrest]
    exact hbelongs.past
  | @ended a id t t' held which hasEnded =>
    have hbelongs := sound.held id t held
    refine sound.replace rfl rfl rfl held hasEnded.id_eq ?_ (hasEnded.sound hbelongs.sound)
      fun other call hcall => .inr (SortedMap.find?_of_erase hcall)
    rw [hasEnded.snapshot_eq]
    exact hbelongs.past
  | @published id t t' writes p held free active closed collected rest tSound due nonempty
      unconflicted version handles =>
    have hbelongs := sound.held id t held
    have hbuilt : Snapshot.Built (PendingRecord.Of good) (c.head.extend writes) := by
      apply sound.built.extend
      intro w hw
      obtain ⟨o, hdue⟩ := due w hw
      exact ⟨o, hdue.isGood, hdue.eq⟩
    refine sound.put hbuilt (fun s hs => List.mem_cons_of_mem _ hs) (Nat.le_refl _) rfl
      ⟨?_, hbelongs.begun, ?_, tSound⟩ fun other call hcall => ?_
    · rw [rest]
      exact hbelongs.id_eq
    · rw [rest]
      exact List.mem_cons_of_mem _ hbelongs.past
    · rcases SortedMap.find?_of_insert hcall with ⟨rfl, rfl⟩ | hother
      · refine .inl ⟨rfl, ?_, fun p' hp' => by cases hp'⟩
        rw [rest]
        exact active
      · exact .inr hother
  | @parked id t p held active free =>
    refine ⟨sound.lasting, sound.built, fun other u hu => ?_, fun other call hcall => ?_⟩
    · exact (sound.held other u hu).mono (Nat.le_refl _) fun _ hs => hs
    · rcases SortedMap.find?_of_insert hcall with ⟨rfl, rfl⟩ | ⟨-, hcall⟩
      · exact ⟨t, held, active, fun p' hp' => by cases hp'⟩
      · exact sound.calls other call hcall
  | @suspended id t p held waiting =>
    have hbelongs := sound.held id t held
    obtain ⟨active, -⟩ := sound.calls_held held waiting
    refine sound.replace rfl rfl rfl held rfl hbelongs.past
      (Transaction.sound_of_empty hbelongs.sound.stores rfl rfl) fun other call hcall => ?_
    rcases SortedMap.find?_of_insert hcall with ⟨rfl, rfl⟩ | hother
    · exact .inl ⟨rfl, active, fun _ _ => ⟨rfl, rfl⟩⟩
    · exact .inr hother
  | @woken id t p held waiting =>
    obtain ⟨-, hempty⟩ := sound.calls_held held waiting
    obtain ⟨entries, frames⟩ := hempty p rfl
    have hpast := Snapshot.mem_chain_self c.head
    exact sound.replace rfl rfl rfl held rfl hpast
      (Transaction.sound_of_empty (sound.stores hpast) entries frames) fun other call hcall =>
        .inr (SortedMap.find?_of_erase hcall)

end Core

theorem Action.within_any (a : Action) : a.Within fun _ => True := by
  cases a with
  | perform id op => cases op <;> simp [Within, Op.Within]
  | _ => trivial

namespace Session

variable {good : Object → Prop}

theorem sound_ofConfig [lasting : Object.Lasting good] (config : Config) :
    (ofConfig config).core.Sound good where
  lasting := lasting
  built := .genesis config.initialVersion
  held id t held := by cases held
  calls id call hcall := by cases hcall

theorem sound_step {s : Session} {a : Action} (within : a.Within good)
    (sound : s.core.Sound good) : (s.step a).core.Sound good :=
  (moves sound a).sound within sound

/-- Whatever the transactions do, the session stays sound. -/
theorem sound_run {actions : List Action} {s : Session} (within : ∀ a ∈ actions, a.Within good)
    (sound : s.core.Sound good) : (s.run actions).core.Sound good := by
  induction actions generalizing s with
  | nil => exact sound
  | cons a later ih =>
    exact ih (fun b hb => within b (List.mem_cons_of_mem _ hb))
      (sound_step (within a List.mem_cons_self) sound)

/-- What no action ends in a sound session holds throughout a run. -/
theorem kept_run {P : Session → Prop}
    (kept : ∀ s a log s', Effect s a log s' → a.Within good → s.core.Sound good → P s → P s')
    {actions : List Action} {s : Session} (within : ∀ a ∈ actions, a.Within good)
    (sound : s.core.Sound good) (holds : P s) : P (s.run actions) := by
  induction actions generalizing s with
  | nil => exact holds
  | cons a later ih =>
    have hnow := within a List.mem_cons_self
    exact ih (fun b hb => within b (List.mem_cons_of_mem _ hb)) (sound_step hnow sound)
      (kept s a _ _ (effect sound a) hnow sound holds)

/-- Sessions of arbitrary objects are sound too. -/
theorem sound_reached (config : Config) (actions : List Action) :
    ((ofConfig config).run actions).core.Sound fun _ => True :=
  sound_run (fun a _ => a.within_any) (sound_ofConfig config)

/-! ## The next number -/

/-- Nobody has the next number yet. -/
theorem next_absent {s : Session} (sound : s.core.Sound good) :
    s.engine.held.find? s.engine.store.nextTransaction = none := by
  cases hfound : s.engine.held.find? s.engine.store.nextTransaction with
  | none => rfl
  | some t => exact absurd (sound.held _ t hfound).begun (Nat.lt_irrefl _)

theorem next_free {s : Session} (sound : s.core.Sound good) :
    s.calls.find? s.engine.store.nextTransaction = none := by
  cases hfound : s.calls.find? s.engine.store.nextTransaction with
  | none => rfl
  | some call =>
    obtain ⟨t, held, -⟩ := sound.calls _ call hfound
    exact absurd (sound.held _ t held).begun (Nat.lt_irrefl _)

/-! ## Commits between their halves -/

omit [Transactables] in
/-- Where a call starts or goes on that is not a commit, the commits are the same. -/
theorem committing_insert {calls : SortedMap TxnId InCall} {id : TxnId} {call : InCall}
    (before : ∀ p, calls.find? id ≠ some (.committing p)) (now : ∀ p, call ≠ .committing p)
    (other : TxnId) (p : Publication) : (calls.insert id call).find? other = some (.committing p) ↔
      calls.find? other = some (.committing p) := by
  by_cases hsame : other = id
  · subst hsame
    rw [SortedMap.find?_insert_self]
    exact ⟨fun h => absurd (Option.some.inj h) (now p), fun h => absurd h (before p)⟩
  · rw [SortedMap.find?_insert_of_ne _ _ hsame]

omit [Transactables] in
/-- Where a call ends that is not a commit, too. -/
theorem committing_erase {calls : SortedMap TxnId InCall} {id : TxnId}
    (before : ∀ p, calls.find? id ≠ some (.committing p)) (other : TxnId) (p : Publication) :
    (calls.erase id).find? other = some (.committing p) ↔
      calls.find? other = some (.committing p) := by
  by_cases hsame : other = id
  · subst hsame
    rw [SortedMap.find?_erase_self]
    exact ⟨nofun, fun h => absurd h (before p)⟩
  · rw [SortedMap.find?_erase_of_ne _ hsame]

end Session

end TransactionalHeap
