import TransactionalHeap.Object.Stock
import TransactionalHeap.Proofs.Engine.Backing
import TransactionalHeap.Proofs.Transaction.Branching

/-!
# Eager loads of a session

Whatever a session has done, an eager load of one of its transactions opens exactly what is reached from
the object in the transaction's own view, or fails over an object that is reached
(`Session.eager_load_explores`). Objects of the graph may be committed or not yet, lie on cycles, and be
of types that do not survive flattening.
-/
namespace TransactionalHeap

section

variable [Transactables]

namespace Transaction

/-- What an eager load does not touch: the transaction but for its entries, the entries of what is not
reached, and the objects that are there already, among them all that is to be written. -/
structure Spares (root : Handle) (t t' : Transaction) : Prop where
  rest : t' = { t with entries := t'.entries }
  others : ∀ h, ¬ t.toView.Reaches root h → t'.entries.find? h = t.entries.find? h
  materialized : ∀ h e, t.entries.find? h = some e → e.object.isSome → t'.entries.find? h = some e
  written : ∀ h ∈ t.writeSet, t'.entries.find? h = t.entries.find? h

variable {good : Object → Prop} {root : Handle} {t t' : Transaction}

theorem LoadsWithin.spares (within : LoadsWithin good root t t') (sound : t.Sound good) :
    Spares root t t' := by
  have hmaterialized : ∀ h e, t.entries.find? h = some e → e.object.isSome →
      t'.entries.find? h = some e := by
    intro h e he hobject
    obtain ⟨e', he', hkept⟩ := within.loads.kept h e he
    rwa [hkept hobject] at he'
  refine ⟨within.loads.rest, within.others, hmaterialized, fun h hmem => ?_⟩
  obtain ⟨e, he, hcandidate⟩ := mem_writeSet_iff.mp hmem
  have hobject : e.object.isSome := by
    cases sound.entries h e he with
    | fresh o absent isGood => rfl
    | changed r o stored sameType isGood => rfl
    | loaded r object stored yielded => cases hcandidate
  rw [he]
  exact hmaterialized h e he hobject

end Transaction

namespace Session

open Transaction

/-- An eager load of an active transaction, outside of its own commit, comes to an end, and as the loop does
that visits what it has not seen. If everything that is reached from the object can be opened, all of it is
tracked and materialized then, and the load succeeds just when the object is of the type. Otherwise it
fails as the view does of something that is reached. Either way no other object comes to be tracked, and no
object changes that was there already, among them all that the transaction has attached or changed. -/
theorem eager_load_explores (config : Config) (actions : List Action) {id : TxnId} {t : Transaction}
    (held : ((ofConfig config).run actions).engine.held.find? id = some t)
    (unpublished : ((ofConfig config).run actions).core.Unpublished id)
    (active : t.status = .active) (root : Handle) :
    GraphWalk.Ends ⟨t, [], [root]⟩ (loadReachable t.available [root] t) ∧
    ((t.toView.Opens root ∧ ∃ o t', t.toView.value root = .ok o ∧ Explored root t t' ∧ Spares root t t' ∧
        ∀ type, load type root .eager t = if o.type = type then .ok (.tracked type root) t'
          else .error (.wrongType type.name o.type.name) t') ∨
      (¬ t.toView.Opens root ∧ ∃ h fault t', t.toView.Reaches root h ∧
        t.toView.value h = .error fault ∧ Spares root t t' ∧
        ∀ type, load type root .eager t = .error fault t')) := by
  have sound := ((sound_reached config actions).held id t held).sound
  have backed := backed_reached config actions id t held unpublished
  refine ⟨sound.walk_ends backed root, ?_⟩
  rcases sound.load_eager backed active root with ⟨opens, o, t', hvalue, explored, within, hload⟩ |
    ⟨closed, h, fault, t', reached, hvalue, within, hload⟩
  · exact .inl ⟨opens, o, t', hvalue, explored, within.spares sound, hload⟩
  · exact .inr ⟨closed, h, fault, t', reached, hvalue, within.spares sound, hload⟩

end Session

end

namespace Session

open Transaction

/-- Two objects that refer to each other are committed, and two more. Another transaction makes one of
the two refer also, and twice, to an object that it attaches and that refers to itself. -/
def entwined : List Action :=
  [.begin, .attach 1 (.node 10 (some ⟨2⟩)), .attach 1 (.multi [⟨1⟩]), .attach 1 (.counter 5),
    .attach 1 (.node 9 (some ⟨77⟩)), .publish 1, .conclude 1,
    .begin, .attach 2 (.node 30 (some ⟨5⟩)),
    .perform 2 (.update .multi ⟨2⟩ fun _ => .ok (.multi [⟨1⟩, ⟨5⟩, ⟨5⟩]))]

/-- From the first object on the three on cycles are loaded, and nothing else. From the fourth one on
there is a reference to nothing. -/
theorem eager_load_explores_entwined : ∃ t t',
    ((ofConfig {}).run entwined).engine.held.find? 2 = some t ∧
    load .node ⟨1⟩ .eager t = .ok (.tracked .node ⟨1⟩) t' ∧
    (∀ h ∈ [(⟨1⟩ : Handle), ⟨2⟩, ⟨5⟩], ∃ e o, t'.entries.find? h = some e ∧ e.object = some o) ∧
    t'.entries.find? ⟨3⟩ = none ∧ t'.entries.find? ⟨2⟩ = t.entries.find? ⟨2⟩ ∧
    ∃ left, load .node ⟨4⟩ .eager t = .error (.loadUncommitted ⟨77⟩) left := by
  obtain ⟨t, held⟩ := Option.isSome_iff_exists.mp
    (by decide +kernel : (((ofConfig {}).run entwined).engine.held.find? 2).isSome = true)
  have hfacts : (((ofConfig {}).run entwined).engine.held.find? 2).map
      (fun t => (t.status, (t.entries.find? ⟨3⟩).isNone, t.writeSet)) =
      some (.active, true, [⟨2⟩, ⟨5⟩]) := by
    decide +kernel
  have hvalues : (((ofConfig {}).run entwined).engine.held.find? 2).map
      (fun t => [(⟨1⟩ : Handle), ⟨2⟩, ⟨5⟩, ⟨4⟩, ⟨77⟩].map t.toView.value) = some [
        .ok (.node 10 (some ⟨2⟩)), .ok (.multi [⟨1⟩, ⟨5⟩, ⟨5⟩]), .ok (.node 30 (some ⟨5⟩)),
        .ok (.node 9 (some ⟨77⟩)), .error (.loadUncommitted ⟨77⟩)] := by decide +kernel
  rw [held] at hfacts hvalues
  simp only [Option.map_some, Option.some.injEq, Prod.mk.injEq, List.map_cons, List.map_nil,
    List.cons.injEq, and_true] at hfacts hvalues
  obtain ⟨active, hthree, hwrites⟩ := hfacts
  have outside : ((ofConfig {}).run entwined).core.Unpublished 2 := Core.unpublished_of_free (by rfl)
  obtain ⟨hone, htwo, hfive, hfour, hnothing⟩ := hvalues
  -- three objects refer to each other only, and the fourth one to nothing that is there
  have hthree' : ∀ h, t.toView.Reaches ⟨1⟩ h → h ∈ [(⟨1⟩ : Handle), ⟨2⟩, ⟨5⟩] := fun h reached => by
    refine reached.mem_of_closed List.mem_cons_self fun x hx o hvalue => ?_
    simp only [List.mem_cons, List.not_mem_nil, or_false] at hx
    rcases hx with rfl | rfl | rfl
    · cases hone.symm.trans hvalue
      decide
    · cases htwo.symm.trans hvalue
      decide
    · cases hfive.symm.trans hvalue
      decide
  have htwo' : ∀ h, t.toView.Reaches ⟨4⟩ h → h ∈ [(⟨4⟩ : Handle), ⟨77⟩] := fun h reached => by
    refine reached.mem_of_closed List.mem_cons_self fun x hx o hvalue => ?_
    simp only [List.mem_cons, List.not_mem_nil, or_false] at hx
    rcases hx with rfl | rfl
    · cases hfour.symm.trans hvalue
      decide
    · cases hnothing.symm.trans hvalue
  have hopens : t.toView.Opens ⟨1⟩ := fun h reached => by
    have hmem := hthree' h reached
    simp only [List.mem_cons, List.not_mem_nil, or_false] at hmem
    rcases hmem with rfl | rfl | rfl
    · exact ⟨_, hone⟩
    · exact ⟨_, htwo⟩
    · exact ⟨_, hfive⟩
  have hdangles : ¬ t.toView.Opens ⟨4⟩ := fun opens => by
    obtain ⟨o, hvalue⟩ := opens ⟨77⟩ (.step .start hfour (by decide))
    cases hnothing.symm.trans hvalue
  rcases (eager_load_explores {} entwined held outside active ⟨1⟩).2 with
    ⟨-, o, t', hvalue, explored, spares, hload⟩ | ⟨hnot, -⟩
  · cases hone.symm.trans hvalue
    rcases (eager_load_explores {} entwined held outside active ⟨4⟩).2 with
      ⟨hopen, -⟩ | ⟨-, h, fault, left, reached, hfault, -, hload'⟩
    · exact absurd hopen hdangles
    · have hwhich : h = ⟨77⟩ := by
        have hmem := htwo' h reached
        simp only [List.mem_cons, List.not_mem_nil, or_false] at hmem
        rcases hmem with rfl | rfl
        · cases hfour.symm.trans hfault
        · rfl
      subst hwhich
      cases hnothing.symm.trans hfault
      have hone_two : t.toView.Reaches ⟨1⟩ ⟨2⟩ := .step .start hone (by decide)
      refine ⟨t, t', held, hload .node, fun h hmem => ?_, ?_, spares.written ⟨2⟩ ?_, left, hload' .node⟩
      · have reached : t.toView.Reaches ⟨1⟩ h := by
          simp only [List.mem_cons, List.not_mem_nil, or_false] at hmem
          rcases hmem with rfl | rfl | rfl
          · exact .start
          · exact hone_two
          · exact .step hone_two htwo (by decide)
        obtain ⟨e, o, he, ho, -⟩ := explored h reached
        exact ⟨e, o, he, ho⟩
      · rw [spares.others ⟨3⟩ fun reached => absurd (hthree' ⟨3⟩ reached) (by decide)]
        exact Option.isNone_iff_eq_none.mp hthree
      · rw [hwrites]
        decide
  · exact absurd hopens hnot

end Session

end TransactionalHeap
