import Mathlib.Data.Option.Basic
import TransactionalHeap.Config.Text
import TransactionalHeap.Proofs.Toml.Fitting
import TransactionalHeap.Proofs.Toml.Flat

/-!
# The library for configurations is lawful

A configuration is written as a flat document of its fields, and every setting is read on its own:
the kind that a table names, the number of an integer that is not too large, and the standard where
the key is missing.
-/

namespace TransactionalHeap

open Toml (Field Struct Library)

variable {value : Toml}

namespace Config

variable {entries : Toml.Entries} {key : String} {c : Config}

/-! ## Writing -/

theorem distinct_fields (c : Config) : ((Struct.fields c).map Prod.fst).Nodup := by
  simp [Struct.fields]

theorem spelled_lockPolicy (p : LockPolicy) : p.field.Spelled := by
  cases p with
  | failFast => exact ⟨by decide, by decide, nofun, by decide⟩
  | spin attempts => exact ⟨by decide, by decide, by simpa using by decide, by simp⟩

theorem spelled_backoff (b : Backoff) : b.field.Spelled := by
  cases b with
  | none => exact ⟨by decide, by decide, nofun, by decide⟩
  | exponential maxSpins => exact ⟨by decide, by decide, by simpa using by decide, by simp⟩

theorem spelled_retries (n : Option UInt32) : (retriesField n).Spelled := by
  cases n <;> trivial

theorem spelled_fields (c : Config) : ∀ f ∈ Struct.fields c, Toml.IsPlain f.1 ∧ f.2.Spelled := by
  simp only [Struct.fields, List.forall_mem_cons, List.not_mem_nil, false_implies, implies_true,
    and_true]
  exact ⟨⟨by decide, trivial⟩, ⟨by decide, spelled_retries _⟩, ⟨by decide, spelled_lockPolicy _⟩,
    ⟨by decide, spelled_backoff _⟩, by decide, spelled_backoff _⟩

/-! ## Reading -/

theorem natBelow?_of_lt {bound n : Nat} (below : n < bound) :
    natBelow? bound (.int n) = some n := by
  rw [natBelow?, if_pos ⟨Int.natCast_nonneg n, Int.ofNat_lt.mpr below⟩, Int.toNat_natCast]

theorem natBelow?_eq_some {bound n : Nat} (given : natBelow? bound value = some n) :
    value = .int n ∧ n < bound := by
  cases value with
  | int m =>
    rw [natBelow?] at given
    split at given <;> cases given
    rename_i h
    rw [Int.toNat_of_nonneg h.1]
    exact ⟨rfl, by omega⟩
  | _ => cases given

theorem word?_int (n : UInt32) : word? (.int n.toNat) = some n := by
  rw [word?, natBelow?_of_lt n.toNat_lt, Option.map_some, UInt32.ofNat_toNat]

theorem word?_of_shows {n : UInt32} (shows : value.Shows (.number n.toNat)) :
    word? value = some n := by
  cases value with
  | int m =>
    cases shows
    exact word?_int n
  | _ => cases shows

theorem version?_of_shows {v : Version} (shows : value.Shows (.number v.toNat)) :
    version? value = some v := by
  cases value with
  | int m =>
    cases shows
    rw [version?, natBelow?_of_lt v.toNat_lt, Option.map_some, UInt64.ofNat_toNat]
  | _ => cases shows

theorem int_of_word? {n : UInt32} (given : word? value = some n) : value = .int n.toNat := by
  obtain ⟨m, hm, rfl⟩ := Option.map_eq_some_iff.mp given
  obtain ⟨rfl, hbelow⟩ := natBelow?_eq_some hm
  rw [UInt32.toNat_ofNat_of_lt' hbelow]

theorem int_of_version? {v : Version} (given : version? value = some v) : value = .int v.toNat := by
  obtain ⟨m, hm, rfl⟩ := Option.map_eq_some_iff.mp given
  obtain ⟨rfl, hbelow⟩ := natBelow?_eq_some hm
  rw [UInt64.toNat_ofNat_of_lt' hbelow]

theorem retries_of_shows {r : Option UInt32} (shows : value.Shows (retriesField r)) :
    (word? value).map some = some r := by
  cases r with
  | none => cases value <;> cases shows
  | some n => rw [word?_of_shows shows, Option.map_some]

/-- A table with the name of a kind is a choice of this kind, which has what the table has. -/
theorem choice_of_shows {kind : String} {numbers : List (String × Nat)}
    (shows : value.Shows (.tagged "kind" kind numbers)) : ∃ inner,
      Choice.ofToml? value = some (.named kind inner) ∧
        ∀ e ∈ numbers, Toml.valueOf? inner e.1 = some (.int e.2) := by
  cases value with
  | table origin inner => exact ⟨inner, by simp only [Choice.ofToml?, shows.1], shows.2⟩
  | _ => cases shows

theorem word?_named (kind : String) {field : String} {n : UInt32} {inner : Toml.Entries}
    (given : Toml.valueOf? inner field = some (.int n.toNat)) :
    (Choice.named kind inner).word? field = some n := by
  rw [Choice.word?, given, Option.bind_eq_bind, Option.bind_some, word?_int]

theorem lockPolicy?_of_shows {p : LockPolicy} (shows : value.Shows p.field) :
    lockPolicy? value = some p := by
  cases p with
  | failFast =>
    obtain ⟨inner, hchoice, -⟩ := choice_of_shows shows
    simp [lockPolicy?, hchoice, Choice.kind, Choice.isBare]
  | spin attempts =>
    obtain ⟨inner, hchoice, hgiven⟩ := choice_of_shows shows
    have hword := word?_named "spin" (hgiven _ List.mem_cons_self)
    simp [lockPolicy?, hchoice, Choice.kind, hword]

theorem backoff?_of_shows {b : Backoff} (shows : value.Shows b.field) :
    backoff? value = some b := by
  cases b with
  | none =>
    obtain ⟨inner, hchoice, -⟩ := choice_of_shows shows
    simp [backoff?, hchoice, Choice.kind, Choice.isBare]
  | exponential maxSpins =>
    obtain ⟨inner, hchoice, hgiven⟩ := choice_of_shows shows
    have hword := word?_named "exponential" (hgiven _ List.mem_cons_self)
    simp [backoff?, hchoice, Choice.kind, hword]

/-! ## Settings -/

theorem retriesField_injective : Function.Injective retriesField := by
  rintro (_ | n) (_ | m) h
  · rfl
  · cases h
  · cases h
  · rw [UInt32.toNat_inj.mp (Field.number.inj h)]

theorem lockPolicy_injective : Function.Injective LockPolicy.field := by
  rintro (_ | n) (_ | m) h <;> simp [LockPolicy.field, UInt32.toNat_inj] at h
  · rfl
  · rw [h]

theorem backoff_injective : Function.Injective Backoff.field := by
  rintro (_ | n) (_ | m) h <;> simp [Backoff.field, UInt32.toNat_inj] at h
  · rfl
  · rw [h]

theorem lockPolicy_ne_number (p : LockPolicy) (n : Nat) : p.field ≠ .number n := by
  cases p <;> nofun

theorem backoff_ne_number (b : Backoff) (n : Nat) : b.field ≠ .number n := by
  cases b <;> nofun

theorem ofEntries?_eq_some_iff : ofEntries? entries = some c ↔
    (∀ e ∈ entries, isKey e.1 = true) ∧
    given? entries "initial_version" 0 version? = some c.initialVersion ∧
    given? entries "max_conflict_retries" none (fun value => (word? value).map some) =
      some c.maxConflictRetries ∧
    given? entries "lock_policy" .failFast lockPolicy? = some c.lockPolicy ∧
    given? entries "commit_backoff" .none backoff? = some c.commitBackoff ∧
    given? entries "conflict_backoff" (.exponential 1024) backoff? = some c.conflictBackoff := by
  obtain ⟨version, retries, policy, onCommit, onConflict⟩ := c
  simp only [ofEntries?, Struct.standard, Option.bind_eq_bind, Option.bind_eq_some_iff,
    Option.guard_eq_some', List.all_eq_true, Option.pure_def, Option.some.injEq, Config.mk.injEq]
  constructor
  · rintro ⟨-, hkeys, _, hversion, _, hretries, _, hpolicy, _, honCommit, _, honConflict,
      rfl, rfl, rfl, rfl, rfl⟩
    exact ⟨hkeys, hversion, hretries, hpolicy, honCommit, honConflict⟩
  · rintro ⟨hkeys, hversion, hretries, hpolicy, honCommit, honConflict⟩
    exact ⟨(), hkeys, _, hversion, _, hretries, _, hpolicy, _, honCommit, _, honConflict,
      rfl, rfl, rfl, rfl, rfl⟩

/-- A setting is read from a table that provides it. -/
theorem given?_of_provides {α : Type} {field : α → Field} {read : Toml → Option α}
    {standard setting : α} (injective : Function.Injective field)
    (reads : ∀ {value}, value.Shows (field setting) → read value = some setting)
    (own : (key, field standard) ∈ Struct.fields (Struct.standard : Config))
    (provided : (∃ value, Toml.valueOf? entries key = some value ∧ value.Shows (field setting)) ∨
      Toml.valueOf? entries key = none ∧
        (key, field setting) ∈ Struct.fields (Struct.standard : Config)) :
    given? entries key standard read = some setting := by
  rw [given?]
  rcases provided with ⟨value, hvalue, hshows⟩ | ⟨hnone, hstandard⟩
  · rw [hvalue]
    exact reads hshows
  · rw [hnone]
    have hfield := Toml.Flat.field_unique (distinct_fields _) own hstandard
    rw [injective hfield]

theorem ofEntries?_of_provides
    (provides : Toml.Provides (Struct.fields c) (Struct.fields (Struct.standard : Config)) entries) :
    ofEntries? entries = some c := by
  have hfield := provides.field
  simp only [Struct.fields, List.forall_mem_cons, List.not_mem_nil, false_implies, implies_true,
    and_true] at hfield
  obtain ⟨hversion, hretries, hpolicy, honCommit, honConflict⟩ := hfield
  refine ofEntries?_eq_some_iff.mpr ⟨fun e he => ?_, ?_, ?_, ?_, ?_, ?_⟩
  · exact List.contains_iff_mem.mpr (provides.known e he)
  · exact given?_of_provides (fun _ _ same => UInt64.toNat_inj.mp (Field.number.inj same))
      version?_of_shows (by decide) hversion
  · exact given?_of_provides retriesField_injective retries_of_shows (by decide) hretries
  · exact given?_of_provides lockPolicy_injective lockPolicy?_of_shows (by decide) hpolicy
  · exact given?_of_provides backoff_injective backoff?_of_shows (by decide) honCommit
  · exact given?_of_provides backoff_injective backoff?_of_shows (by decide) honConflict

/-- What is read as a setting is the value under its key, or the standard. -/
theorem given?_eq_some {α : Type} {read : Toml → Option α} {standard setting : α}
    (given : given? entries key standard read = some setting) :
    (∃ value, Toml.valueOf? entries key = some value ∧ read value = some setting) ∨
      Toml.valueOf? entries key = none ∧ standard = setting := by
  rw [given?] at given
  split at given
  · rename_i hnone
    exact .inr ⟨hnone, Option.some.inj given⟩
  · rename_i value hvalue
    exact .inl ⟨value, hvalue, given⟩

theorem number_of_ofEntries? {n : Nat} (read : ofEntries? entries = some c)
    (mem : (key, .number n) ∈ Struct.fields c) :
    Toml.valueOf? entries key = some (.int n) ∨
      (key, .number n) ∈ Struct.fields (Struct.standard : Config) := by
  obtain ⟨-, hversion, hretries, -⟩ := ofEntries?_eq_some_iff.mp read
  simp only [Struct.fields, List.mem_cons, List.not_mem_nil, or_false, Prod.mk.injEq] at mem
  rcases mem with ⟨rfl, hn⟩ | ⟨rfl, hn⟩ | ⟨-, hn⟩ | ⟨-, hn⟩ | ⟨-, hn⟩
  · rcases given?_eq_some hversion with ⟨value, hvalue, hread⟩ | ⟨-, hstandard⟩
    · cases hn
      rw [hvalue, int_of_version? hread]
      exact .inl rfl
    · rw [← hstandard] at hn
      cases hn
      exact .inr (by decide)
  · rcases given?_eq_some hretries with ⟨value, hvalue, hread⟩ | ⟨-, hstandard⟩
    · obtain ⟨word, hword, hsome⟩ := Option.map_eq_some_iff.mp hread
      rw [← hsome] at hn
      cases hn
      rw [hvalue, int_of_word? hword]
      exact .inl rfl
    · rw [← hstandard] at hn
      cases hn
  · exact absurd hn.symm (lockPolicy_ne_number c.lockPolicy n)
  · exact absurd hn.symm (backoff_ne_number c.commitBackoff n)
  · exact absurd hn.symm (backoff_ne_number c.conflictBackoff n)

/-! ## Laws -/

theorem lawful_library : Toml.Lawful Config where
  writes_iff c := by
    simp only [Library.write, Toml.write?]
    split
    · next h => exact ⟨fun _ => List.all_eq_true.mp h, fun _ => ⟨_, rfl⟩⟩
    · next h =>
      refine ⟨?_, fun hfit => absurd (List.all_eq_true.mpr hfit) h⟩
      rintro ⟨text, hnone⟩
      cases hnone
  holds_fitting text entries hentries key n hvalue := by
    obtain ⟨_, _, hsplit, -⟩ := List.lookup_eq_some_iff.mp hvalue
    exact Toml.ofText?_fits hentries (key, .int n) (by simp [hsplit])
  written c text hwritten :=
    Toml.renders_write? (distinct_fields c) (spelled_fields c) hwritten
  reads c text entries hentries hprovides := by
    have hread := ofEntries?_of_provides hprovides
    exact Option.bind_eq_some_iff.mpr ⟨entries, hentries, hread⟩
  read_number c text hread := by
    obtain ⟨entries, hentries, hconfig⟩ := Option.bind_eq_some_iff.mp hread
    exact ⟨entries, hentries, fun _ _ hmem => number_of_ofEntries? hconfig hmem⟩

end Config

end TransactionalHeap
