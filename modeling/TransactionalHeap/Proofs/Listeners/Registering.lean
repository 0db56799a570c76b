import Mathlib.Logic.Function.Iterate
import TransactionalHeap.Proofs.Listeners.Serving

/-!
# Registering step by step

A registrant goes through the objects of its registration one at a time: it makes sure of the
object's group, looks the object up in the head, activates the version it found, files its latch, and
sees whether the latch is open by now. Later it withdraws the latch from one object at a time.

The listeners serve everybody through all of these steps, whatever others do in between
(`Registrant.turn_held`). With nobody in between the steps are `Listeners.register` and
`Listeners.deregister` (`Registrant.iterate_register`, `Registrant.iterate_deregister`).
-/
namespace TransactionalHeap

variable [Transactables]

/-- What a registrant does next. -/
inductive Stage where
  | ensure
  | look
  | activate (seen : Version)
  | file
  | check
  | registered
  | withdrawing
  deriving DecidableEq

/-- What the next step needs to know of the object it is about. -/
def Stage.Ready (l : Listeners) (head : Snapshot) (pending : Handle → Version → Prop) (h : Handle) :
    Stage → Prop
  | .look => ∃ active, l.activeOf h = some active
  | .activate seen => seen ≤ head.written h ∧ l.Informed head pending h seen
  | .file => l.Informed head pending h 0
  | _ => True

namespace Stage.Ready

variable {l l' : Listeners} {head : Snapshot} {pending pending' : Handle → Version → Prop}
  {h : Handle} {stage : Stage}

theorem lead (ready : stage.Ready l head pending h) (leads : l.Leads l') :
    stage.Ready l' head pending h := by
  cases stage with
  | look =>
    obtain ⟨active, hactive⟩ := ready
    obtain ⟨active', hactive', -⟩ := leads.active h active hactive
    exact ⟨active', hactive'⟩
  | activate seen => exact ⟨ready.1, ready.2.lead leads⟩
  | file => exact Listeners.Informed.lead ready leads
  | ensure | check | registered | withdrawing => trivial

theorem announce {other : Handle} {v : Version} (ready : stage.Ready l head pending other)
    (waiting : l.Waiting) (rest : ∀ v', pending other v' → pending' other v' ∨ other = h ∧ v' ≤ v) :
    stage.Ready (l.activate h v) head pending' other := by
  cases stage with
  | look =>
    obtain ⟨active, hactive⟩ := ready
    obtain ⟨active', hactive', -⟩ := (waiting.leads_activate h v).active other active hactive
    exact ⟨active', hactive'⟩
  | activate seen => exact ⟨ready.1, ready.2.announce waiting rest⟩
  | file => exact Listeners.Informed.announce ready waiting rest
  | ensure | check | registered | withdrawing => trivial

theorem extend {ok : PendingRecord → Prop} (ready : stage.Ready l head pending h)
    (built : head.Built ok) (room : head.base.toNat + head.depth + 1 < 2 ^ 64)
    (writes : List PendingRecord) (more : ∀ v, pending h v → pending' h v)
    (new : (∃ w ∈ writes, w.handle = h) → pending' h head.version.next) :
    stage.Ready l (head.extend writes) pending' h := by
  cases stage with
  | look => exact ready
  | activate seen =>
    exact ⟨UInt64.le_trans ready.1 (built.written_extend_le room writes h),
      ready.2.extend built.ordered writes more new⟩
  | file => exact Listeners.Informed.extend ready built.ordered writes more new
  | ensure | check | registered | withdrawing => trivial

end Stage.Ready

structure Registrant where
  reg : Registration
  stage : Stage
  /-- The objects that the latch is not yet filed with, the current one first. -/
  ahead : List Handle

namespace Registrant

variable {l l' : Listeners} {head : Snapshot} {used : LatchId → Prop}
  {regs : LatchId → Registration → Prop} {pending pending' : Handle → Version → Prop}
  {latch : LatchId} {q : Registrant} {ok : PendingRecord → Prop}

def new (handles : List Handle) (start : Version) (room : start.toNat + 1 < 2 ^ 64) : Registrant :=
  ⟨.fresh start room, .ensure, handles⟩

/-- All objects of the registration. -/
def handles (q : Registrant) : List Handle := q.reg.handles ++ q.ahead

/-- Begin to withdraw the latch from where it is filed. -/
def giveUp (q : Registrant) : Registrant :=
  { q with
    reg := q.reg.withdrawing q.reg.filed (fun _ h => h)
    stage := .withdrawing }

/-- The next step of a registrant, on the listeners over the given head. -/
def advance (latch : LatchId) (head : Snapshot) (l : Listeners) : Registrant → Listeners × Registrant
  | ⟨reg, .ensure, h :: later⟩ => (l.ensureGroup h, ⟨reg, .look, h :: later⟩)
  | ⟨reg, .look, h :: later⟩ =>
    match head.versionOf h with
    | none => (l, giveUp ⟨reg, .look, h :: later⟩)
    | some seen => (l, ⟨reg, .activate seen, h :: later⟩)
  | ⟨reg, .activate seen, h :: later⟩ => (l.activate h seen, ⟨reg, .file, h :: later⟩)
  | ⟨reg, .file, h :: later⟩ =>
    (l.file h reg.start.next latch, ⟨reg.fileWith h, .check, later⟩)
  | ⟨reg, .check, ahead⟩ =>
    (l, ⟨reg, if l.latches.isOpen latch || ahead.isEmpty then .registered else .ensure, ahead⟩)
  | ⟨reg, .withdrawing, ahead⟩ =>
    match reg.filed.head? with
    | none => (l, ⟨reg, .withdrawing, ahead⟩)
    | some h => (l.withdraw h reg.start.next latch,
        ⟨reg.withdrawing reg.filed.tail (fun _ => List.mem_of_mem_tail), .withdrawing, ahead⟩)
  | q => (l, q)

/-- The next step with nobody in between. -/
def turn (latch : LatchId) (head : Snapshot) (p : Listeners × Registrant) : Listeners × Registrant :=
  p.2.advance latch head p.1

/-! ## Among others -/

/-- The registrant is where it may be. -/
structure Sound (q : Registrant) (latch : LatchId) (l : Listeners) (head : Snapshot)
    (pending : Handle → Version → Prop) : Prop where
  kept : q.stage ≠ .withdrawing → q.reg.kept = true
  settled : q.stage = .registered → l.latches.isOpen latch = true ∨ q.ahead = []
  ready : ∀ h, q.ahead.head? = some h → q.stage.Ready l head pending h

theorem sound_new {handles : List Handle} {start : Version} (room : start.toNat + 1 < 2 ^ 64) :
    (new handles start room).Sound latch l head pending where
  kept _ := rfl
  settled hstage := by cases hstage
  ready _ _ := trivial

theorem sound_giveUp (q : Registrant) : q.giveUp.Sound latch l head pending where
  kept hstage := absurd rfl hstage
  settled hstage := by cases hstage
  ready _ _ := trivial

/-- Others register, withdraw and look up. -/
theorem Sound.lead (sound : q.Sound latch l head pending) (leads : l.Leads l') :
    q.Sound latch l' head pending where
  kept := sound.kept
  settled hstage := (sound.settled hstage).imp_left (leads.opened latch)
  ready h hh := (sound.ready h hh).lead leads

/-- Others announce what was committed. -/
theorem Sound.announce {h : Handle} {v : Version} (sound : q.Sound latch l head pending)
    (waiting : l.Waiting)
    (rest : ∀ h' v', pending h' v' → pending' h' v' ∨ h' = h ∧ v' ≤ v) :
    q.Sound latch (l.activate h v) head pending' where
  kept := sound.kept
  settled hstage := (sound.settled hstage).imp_left ((waiting.leads_activate h v).opened latch)
  ready h' hh' := (sound.ready h' hh').announce waiting (rest h')

/-- Others commit. -/
theorem Sound.extend (sound : q.Sound latch l head pending) (built : head.Built ok)
    (room : head.base.toNat + head.depth + 1 < 2 ^ 64) (writes : List PendingRecord)
    (more : ∀ h v, pending h v → pending' h v)
    (new : ∀ w ∈ writes, pending' w.handle head.version.next) :
    q.Sound latch l (head.extend writes) pending' where
  kept := sound.kept
  settled := sound.settled
  ready h hh := (sound.ready h hh).extend built room writes (more h) fun ⟨w, hw, hh⟩ => hh ▸ new w hw

/-- The listeners serve the registrant as well as everybody else. -/
structure Held (latch : LatchId) (head : Snapshot) (used : LatchId → Prop)
    (regs : LatchId → Registration → Prop) (pending : Handle → Version → Prop)
    (p : Listeners × Registrant) : Prop where
  serves : p.1.Serves head used (reassign regs latch p.2.reg) pending
  sound : p.2.Sound latch p.1 head pending

namespace Held

variable {reg : Registration} {h : Handle} {later ahead : List Handle}

theorem ensure
    (held : Held latch head used regs pending (l, ⟨reg, .ensure, h :: later⟩)) :
    Held latch head used regs pending (l.ensureGroup h, ⟨reg, .look, h :: later⟩) where
  serves := held.serves.ensureGroup h
  sound := {
    kept := fun _ => held.sound.kept (by simp)
    settled := nofun
    ready := fun other hother => by
      obtain rfl : h = other := by simpa using hother
      exact ⟨_, (Listeners.activeOf_ensureGroup l h h).trans (if_pos rfl)⟩ }

/-- What is found in the head after the group was made sure of includes all of the past. -/
theorem look {seen : Version}
    (held : Held latch head used regs pending (l, ⟨reg, .look, h :: later⟩))
    (built : head.Built ok) (room : head.base.toNat + head.depth < 2 ^ 64)
    (found : head.versionOf h = some seen) :
    Held latch head used regs pending (l, ⟨reg, .activate seen, h :: later⟩) where
  serves := held.serves
  sound := {
    kept := fun _ => held.sound.kept (by simp)
    settled := nofun
    ready := fun other hother => by
      obtain rfl : h = other := by simpa using hother
      have hseen : head.written h = seen := by rw [Snapshot.written, found, Option.getD_some]
      obtain ⟨active, hactive⟩ := held.sound.ready h rfl
      exact hseen ▸ ⟨UInt64.le_refl _, Listeners.informed_of_lookup built room hactive⟩ }

theorem activate {seen : Version}
    (held : Held latch head used regs pending (l, ⟨reg, .activate seen, h :: later⟩)) :
    Held latch head used regs pending (l.activate h seen, ⟨reg, .file, h :: later⟩) where
  serves := held.serves.activate (held.sound.ready h rfl).1 (fun _ _ hpending => hpending)
    fun _ _ hpending => .inl hpending
  sound := {
    kept := fun _ => held.sound.kept (by simp)
    settled := nofun
    ready := fun other hother => by
      obtain rfl : h = other := by simpa using hother
      exact (held.sound.ready h rfl).2.activate held.serves.waiting }

theorem file
    (held : Held latch head used regs pending (l, ⟨reg, .file, h :: later⟩)) :
    Held latch head used regs pending (l.file h reg.start.next latch,
      ⟨reg.fileWith h, .check, later⟩) where
  serves := by
    have hfiled := held.serves.file (.inl ⟨rfl, rfl⟩) (held.sound.ready h rfl)
    exact hfiled.congr (fun _ hused => hused) fun other r =>
      (reassign_reassign regs latch _ _ other r).symm
  sound := {
    kept := fun _ => held.sound.kept (by simp)
    settled := nofun
    ready := fun _ _ => trivial }

theorem check
    (held : Held latch head used regs pending (l, ⟨reg, .check, ahead⟩)) :
    Held latch head used regs pending (l,
      ⟨reg, if l.latches.isOpen latch || ahead.isEmpty then .registered else .ensure, ahead⟩) where
  serves := held.serves
  sound := by
    have hkept := held.sound.kept (by simp)
    split
    · next hsettled =>
      exact ⟨fun _ => hkept, fun _ => by simpa using hsettled, fun _ _ => trivial⟩
    · exact ⟨fun _ => hkept, nofun, fun _ _ => trivial⟩

theorem giveUp (held : Held latch head used regs pending (l, q)) :
    Held latch head used regs pending (l, q.giveUp) where
  serves := (held.serves.letGo (.inl ⟨rfl, rfl⟩)).congr (fun _ hused => hused) fun other r =>
    (reassign_reassign regs latch _ _ other r).symm
  sound := q.sound_giveUp

theorem withdraw {left : List Handle}
    (held : Held latch head used regs pending (l, ⟨reg, .withdrawing, ahead⟩))
    (filed : reg.filed = h :: left) (sub : ∀ other ∈ left, other ∈ reg.filed) :
    Held latch head used regs pending (l.withdraw h reg.start.next latch,
      ⟨reg.withdrawing left sub, .withdrawing, ahead⟩) where
  serves := by
    have hwithdrawn := held.serves.withdraw (.inl ⟨rfl, rfl⟩) sub h fun other hother => by
      simpa [filed] using hother
    exact hwithdrawn.congr (fun _ hused => hused) fun other r =>
      (reassign_reassign regs latch _ _ other r).symm
  sound := ⟨nofun, nofun, fun _ _ => trivial⟩

/-- Whatever a registrant does next, the listeners serve everybody also after it, and they have
forgotten nothing. -/
theorem turn {p : Listeners × Registrant} (held : Held latch head used regs pending p)
    (built : head.Built ok) (room : head.base.toNat + head.depth < 2 ^ 64) :
    Held latch head used regs pending (turn latch head p) ∧ p.1.Leads (turn latch head p).1 := by
  obtain ⟨l, reg, stage, ahead⟩ := p
  cases stage with
  | ensure =>
    cases ahead with
    | nil => exact ⟨held, .refl l⟩
    | cons h later => exact ⟨held.ensure, l.leads_ensureGroup h⟩
  | look =>
    cases ahead with
    | nil => exact ⟨held, .refl l⟩
    | cons h later =>
      simp only [Registrant.turn, advance]
      split
      · exact ⟨held.giveUp, .refl l⟩
      · next hfound => exact ⟨held.look built room hfound, .refl l⟩
  | activate seen =>
    cases ahead with
    | nil => exact ⟨held, .refl l⟩
    | cons h later => exact ⟨held.activate, held.serves.waiting.leads_activate h seen⟩
  | file =>
    cases ahead with
    | nil => exact ⟨held, .refl l⟩
    | cons h later =>
      obtain ⟨active, hactive, -⟩ := held.sound.ready h rfl
      exact ⟨held.file, held.serves.waiting.leads_file hactive _ _⟩
  | check => exact ⟨held.check, .refl l⟩
  | registered => exact ⟨held, .refl l⟩
  | withdrawing =>
    cases hfiled : reg.filed with
    | nil =>
      simp only [Registrant.turn, advance, hfiled, List.head?_nil]
      exact ⟨held, .refl l⟩
    | cons h left =>
      simp only [Registrant.turn, advance, hfiled, List.head?_cons, List.tail_cons]
      exact ⟨held.withdraw hfiled _, l.leads_withdraw h _ _⟩

theorem iterate {p : Listeners × Registrant} (held : Held latch head used regs pending p)
    (built : head.Built ok) (room : head.base.toNat + head.depth < 2 ^ 64) (n : Nat) :
    Held latch head used regs pending ((Registrant.turn latch head)^[n] p) ∧
      p.1.Leads ((Registrant.turn latch head)^[n] p).1 := by
  induction n with
  | zero => exact ⟨held, .refl p.1⟩
  | succ n ih =>
    rw [Function.iterate_succ_apply']
    obtain ⟨hheld, hleads⟩ := ih.1.turn built room
    exact ⟨hheld, ih.2.trans hleads⟩

end Held

/-- A registration is about the same objects and the same start to its end. -/
theorem advance_requested (latch : LatchId) (head : Snapshot) (l : Listeners) (q : Registrant) :
    (q.advance latch head l).2.handles = q.handles ∧
      (q.advance latch head l).2.reg.start = q.reg.start := by
  unfold advance
  split
  case h_2 => split <;> exact ⟨rfl, rfl⟩
  case h_4 reg h later => exact ⟨(List.append_cons reg.handles h later).symm, rfl⟩
  case h_6 => split <;> exact ⟨rfl, rfl⟩
  all_goals exact ⟨rfl, rfl⟩

theorem iterate_requested (latch : LatchId) (head : Snapshot) (p : Listeners × Registrant) (n : Nat) :
    ((turn latch head)^[n] p).2.handles = p.2.handles ∧
      ((turn latch head)^[n] p).2.reg.start = p.2.reg.start := by
  induction n with
  | zero => exact ⟨rfl, rfl⟩
  | succ n ih =>
    rw [Function.iterate_succ_apply']
    obtain ⟨hhandles, hstart⟩ := advance_requested latch head ((turn latch head)^[n] p).1
      ((turn latch head)^[n] p).2
    exact ⟨hhandles.trans ih.1, hstart.trans ih.2⟩

/-! ## Without others -/

/-- The steps for one object, when it is in the head. -/
theorem turn_five (latch : LatchId) (l : Listeners) (reg : Registration) {h : Handle}
    (later : List Handle) {seen : Version} (found : head.versionOf h = some seen) :
    let l' := ((l.ensureGroup h).activate h seen).file h reg.start.next latch
    (turn latch head)^[5] (l, ⟨reg, .ensure, h :: later⟩) =
      (l', ⟨reg.fileWith h,
        if l'.latches.isOpen latch || later.isEmpty then .registered else .ensure, later⟩) := by
  simp only [Function.iterate_succ, Function.iterate_zero, Function.comp_apply, id_eq, turn, advance,
    found]

/-- Withdrawing step by step is withdrawing from all of the list. -/
theorem iterate_withdrawing (latch : LatchId) (head : Snapshot) (l : Listeners) (reg : Registration)
    (ahead : List Handle) :
    ∃ q', (turn latch head)^[reg.filed.length] (l, ⟨reg, .withdrawing, ahead⟩) =
      (l.deregister reg.filed reg.start latch, q') ∧ q'.stage = .withdrawing ∧ q'.reg.filed = [] := by
  obtain ⟨handles, start, filed, kept, room, sub, whole⟩ := reg
  induction filed generalizing l kept with
  | nil => exact ⟨_, rfl, rfl, rfl⟩
  | cons h left ih =>
    have hsub : ∀ other ∈ left, other ∈ handles := fun other hother =>
      sub other (List.mem_cons_of_mem _ hother)
    exact ih (l.withdraw h start.next latch) false hsub fun h => absurd h Bool.false_ne_true

theorem iterate_deregister (latch : LatchId) (head : Snapshot) (l : Listeners) (q : Registrant) :
    ∃ q', (turn latch head)^[q.reg.filed.length] (l, q.giveUp) =
      (l.deregister q.reg.filed q.reg.start latch, q') ∧ q'.stage = .withdrawing ∧
      q'.reg.filed = [] :=
  iterate_withdrawing latch head l (q.reg.withdrawing q.reg.filed fun _ h => h) q.ahead

/-- With nobody in between, the steps of a registrant are `Listeners.registerFrom`, to the end. -/
theorem iterate_registerFrom (latch : LatchId) (head : Snapshot) (l : Listeners) (reg : Registration)
    (kept : reg.kept = true) {ahead : List Handle} (nonempty : ahead ≠ []) : ∃ n l' q',
    (turn latch head)^[n] (l, ⟨reg, .ensure, ahead⟩) = (l', q') ∧
      match Listeners.registerFrom head reg.start latch reg.filed ahead l with
      | .ok filed l'' => l' = l'' ∧ q'.stage = .registered ∧ q'.reg.filed = filed
      | .error _ l'' => l' = l'' ∧ q'.stage = .withdrawing ∧ q'.reg.filed = [] := by
  induction ahead generalizing l reg with
  | nil => exact absurd rfl nonempty
  | cons h later ih =>
    cases hfound : head.versionOf h with
    | none =>
      obtain ⟨q', hruns, hstage, hfiled⟩ := iterate_deregister latch head (l.ensureGroup h)
        ⟨reg, .look, h :: later⟩
      have htwo : (turn latch head)^[2] (l, ⟨reg, .ensure, h :: later⟩) =
          (l.ensureGroup h, giveUp ⟨reg, .look, h :: later⟩) := by
        simp only [Function.iterate_succ, Function.iterate_zero, Function.comp_apply, id_eq, turn,
          advance, hfound]
      refine ⟨reg.filed.length + 2, (l.ensureGroup h).deregister reg.filed reg.start latch, q',
        ?_, ?_⟩
      · rw [Function.iterate_add_apply, htwo]
        exact hruns
      · simp only [Listeners.registerFrom, hfound]
        exact ⟨trivial, hstage, hfiled⟩
    | some seen =>
      have hone := turn_five latch l reg later hfound
      simp only [Listeners.registerFrom, hfound]
      by_cases hopen : (((l.ensureGroup h).activate h seen).file h reg.start.next
          latch).latches.isOpen latch = true
      · rw [if_pos hopen]
        refine ⟨5, _, _, hone, rfl, ?_, rfl⟩
        simp [hopen]
      · rw [if_neg hopen]
        have hclosed := Bool.eq_false_iff.mpr hopen
        by_cases hlast : later = []
        · subst hlast
          refine ⟨5, _, _, hone, ?_⟩
          simp [Listeners.registerFrom, Registration.fileWith]
        · obtain ⟨n, l', q', hruns, hresult⟩ := ih (((l.ensureGroup h).activate h seen).file h
            reg.start.next latch) (reg.fileWith h) kept hlast
          refine ⟨n + 5, l', q', ?_, hresult⟩
          rw [Function.iterate_add_apply, hone, ← hruns]
          simp [hclosed, hlast]

theorem iterate_register (latch : LatchId) (head : Snapshot) (l : Listeners) {handles : List Handle}
    (start : Version) (room : start.toNat + 1 < 2 ^ 64) (nonempty : handles ≠ []) : ∃ n l' q',
    (turn latch head)^[n] (l, new handles start room) = (l', q') ∧
      match Listeners.register head handles start latch l with
      | .ok filed l'' => l' = l'' ∧ q'.stage = .registered ∧ q'.reg.filed = filed
      | .error _ l'' => l' = l'' ∧ q'.stage = .withdrawing ∧ q'.reg.filed = [] := by
  have hregister : Listeners.register head handles start latch l =
      Listeners.registerFrom head start latch [] handles l := by
    rw [Listeners.register, if_neg (by simpa using nonempty)]
  rw [hregister]
  exact iterate_registerFrom latch head l (.fresh start room) rfl nonempty

end Registrant

/-! ## What the listeners know then -/

namespace Listeners

variable {l : Listeners} {head : Snapshot}

/-- The listeners of an object know its version in the head. -/
def Reached (l : Listeners) (head : Snapshot) (h : Handle) : Prop :=
  ∃ active, l.activeOf h = some active ∧ head.written h ≤ active

theorem Reached.lead {l' : Listeners} {h : Handle} (reached : l.Reached head h) (leads : l.Leads l') :
    l'.Reached head h := by
  obtain ⟨active, hactive, hle⟩ := reached
  obtain ⟨active', hactive', hle'⟩ := leads.active h active hactive
  exact ⟨active', hactive', UInt64.le_trans hle hle'⟩

/-- Registering with objects of the head succeeds, and the listeners of all objects that the latch is
filed with know their versions then. -/
theorem registerFrom_of_stored (waiting : l.Waiting) (start : Version) (latch : LatchId)
    (filed : List Handle) {handles : List Handle}
    (stored : ∀ h ∈ handles, ∃ v, head.versionOf h = some v)
    (reached : ∀ h ∈ filed, l.Reached head h) : ∃ filed' l',
    registerFrom head start latch filed handles l = .ok filed' l' ∧
      ∀ h ∈ filed', l'.Reached head h := by
  induction handles generalizing l filed with
  | nil => exact ⟨filed, l, rfl, reached⟩
  | cons h later ih =>
    obtain ⟨seen, hfound⟩ := stored h List.mem_cons_self
    have hwritten : head.written h = seen := by rw [Snapshot.written, hfound, Option.getD_some]
    have hactivated := (waiting.ensureGroup h).activate h seen
    obtain ⟨active, hactive⟩ : ∃ active, ((l.ensureGroup h).activate h seen).activeOf h =
        some active := by
      rw [activeOf_activate, if_pos rfl, activeOf_ensureGroup, if_pos rfl]
      exact ⟨_, rfl⟩
    have hleads := hactivated.leads_file hactive start.next latch
    have hreached : ∀ other ∈ filed ++ [h],
        (((l.ensureGroup h).activate h seen).file h start.next latch).Reached head other := by
      intro other hother
      rcases List.mem_append.mp hother with hother | hother
      · exact (reached other hother).lead ((l.leads_ensureGroup h).trans
          (((waiting.ensureGroup h).leads_activate h seen).trans hleads))
      · obtain rfl := List.mem_singleton.mp hother
        exact Reached.lead ⟨active, hactive, hwritten ▸ le_of_activate hactive⟩ hleads
    simp only [registerFrom, hfound]
    split
    · exact ⟨_, _, rfl, hreached⟩
    · exact ih (hactivated.file hactive start.next latch) (filed ++ [h])
        (fun other hother => stored other (List.mem_cons_of_mem _ hother)) hreached

/-! ## Whole registrations -/

section Whole

variable {used : LatchId → Prop} {regs : LatchId → Registration → Prop}
  {pending : Handle → Version → Prop} {ok : PendingRecord → Prop} {latch : LatchId}

/-- A registration has gone through, and the listeners serve it as well. A latch that is still closed
is filed with all the objects, and it is open exactly if one of them was written after the start. -/
structure Registered (l' : Listeners) (head : Snapshot) (used : LatchId → Prop)
    (regs : LatchId → Registration → Prop) (pending : Handle → Version → Prop) (latch : LatchId)
    (handles : List Handle) (start : Version) (filed : List Handle) (r : Registration) : Prop where
  stands : r.Stands filed start
  serves : l'.Serves head (fun other => other = latch ∨ used other) (reassign regs latch r) pending
  sub : ∀ h ∈ filed, h ∈ handles
  all : l'.latches.isOpen latch = false → filed = handles
  isOpen_iff : l'.latches.isOpen latch = true ↔ head.Overtakes handles start

/-- A registration with objects of the head goes through. -/
theorem Serves.registered (serves : l.Serves head used regs pending) (built : head.Built ok)
    (room : head.base.toNat + head.depth < 2 ^ 64) (unused : ¬ used latch) {start : Version}
    (startRoom : start.toNat + 1 < 2 ^ 64) {handles : List Handle} (nonempty : handles ≠ [])
    (stored : ∀ h ∈ handles, ∃ v, head.versionOf h = some v) : ∃ filed l' r,
    Listeners.register head handles start latch l = .ok filed l' ∧ l.Leads l' ∧
      l'.Registered head used regs pending latch handles start filed r := by
  obtain ⟨filed, l', hrun, hreached⟩ := registerFrom_of_stored serves.waiting start latch [] stored
    (by simp)
  obtain ⟨n, l'', q, hruns, hresult⟩ :=
    Registrant.iterate_register latch head l start startRoom nonempty
  have hregister : Listeners.register head handles start latch l = .ok filed l' := by
    rwa [Listeners.register, if_neg (by simpa using nonempty)]
  rw [hregister] at hresult
  obtain ⟨rfl, hstage, rfl⟩ := hresult
  have hbefore : Registrant.Held latch head (fun other => other = latch ∨ used other) regs pending
      (l, .new handles start startRoom) :=
    ⟨serves.register unused rfl, Registrant.sound_new startRoom⟩
  obtain ⟨hheld, hleads⟩ := hbefore.iterate built room n
  obtain ⟨hhandles, hstart⟩ := Registrant.iterate_requested latch head
    (l, .new handles start startRoom) n
  rw [hruns] at hheld hleads hhandles hstart
  replace hstart : q.reg.start = start := hstart
  have hkept : q.reg.kept = true := hheld.sound.kept (by rw [hstage]; nofun)
  have hwhole := q.reg.whole hkept
  have hreg : reassign regs latch q.reg latch q.reg := .inl ⟨rfl, rfl⟩
  have hall : q.reg.filed ++ q.ahead = handles := by
    rw [hwhole]
    exact hhandles
  have hsub : ∀ h ∈ q.reg.filed, h ∈ handles := fun h hmem => by
    rw [← hall]
    exact List.mem_append_left _ hmem
  have hclosed : l''.latches.isOpen latch = false → q.reg.filed = handles := fun hclosed => by
    have hahead : q.ahead = [] := (hheld.sound.settled hstage).resolve_left (by simp [hclosed])
    rwa [hahead, List.append_nil] at hall
  refine ⟨q.reg.filed, l'', q.reg, hregister, hleads, ⟨hwhole.symm, rfl, hstart, hkept⟩,
    hheld.serves, hsub, hclosed, fun hopen => ?_, fun ⟨h, hmem, hlt⟩ => ?_⟩
  · obtain ⟨h, hmem, hlt⟩ := hheld.serves.overtaken latch q.reg hreg hopen
    exact ⟨h, hsub h (hwhole.symm ▸ hmem), hstart ▸ hlt⟩
  · by_contra hnot
    have hshut : l''.latches.isOpen latch = false := by simpa using hnot
    rw [← hclosed hshut] at hmem
    obtain ⟨hfiled, -⟩ := hheld.serves.informed latch q.reg hreg hkept hshut h hmem
    obtain ⟨active, hactive, hbelow⟩ := hheld.serves.waiting.active_lt hfiled
    obtain ⟨active', hactive', hle⟩ := hreached h hmem
    obtain rfl : active = active' := Option.some.inj (hactive.symm.trans hactive')
    have hnext : q.reg.start.next ≤ head.written h :=
      (Version.next_le_iff q.reg.room).mpr (hstart.symm ▸ hlt)
    exact absurd (UInt64.lt_of_lt_of_le hbelow (UInt64.le_trans hnext hle)) (UInt64.lt_irrefl _)

/-- A latch that is withdrawn from where it is filed need not be served any more. -/
theorem Serves.deregistered (serves : l.Serves head used regs pending) (built : head.Built ok)
    (room : head.base.toNat + head.depth < 2 ^ 64) {r : Registration} (reg : regs latch r) :
    (l.deregister r.filed r.start latch).Serves head used
      (fun other r' => other ≠ latch ∧ regs other r') pending := by
  obtain ⟨q, hruns, -, hunfiled⟩ : ∃ q, (Registrant.turn latch head)^[r.filed.length]
      (l, Registrant.giveUp ⟨r, .withdrawing, []⟩) = (l.deregister r.filed r.start latch, q) ∧
      q.stage = .withdrawing ∧ q.reg.filed = [] :=
    Registrant.iterate_deregister latch head l ⟨r, .withdrawing, []⟩
  have hbefore : Registrant.Held latch head used regs pending (l, ⟨r, .withdrawing, []⟩) :=
    ⟨serves.congr (fun _ hused => hused) (serves.reassign_self reg), nofun, nofun, fun _ _ => trivial⟩
  obtain ⟨hheld, -⟩ := hbefore.giveUp.iterate built room r.filed.length
  rw [hruns] at hheld
  refine (hheld.serves.forget (.inl ⟨rfl, rfl⟩) hunfiled).congr (fun _ hused => hused) ?_
  intro other r'
  refine and_congr_right fun hne => ?_
  simp [reassign, hne]

end Whole

end Listeners

end TransactionalHeap
