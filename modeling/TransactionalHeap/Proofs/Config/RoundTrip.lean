import TransactionalHeap.Proofs.Config.Text
import TransactionalHeap.Proofs.Toml.Library

/-!
# Configurations read back

The texts of configurations are those of a lawful library. Of the settings only the version can be too
large for an integer of a text, and only the bound on retries is left out where it is not set, as in
the configuration that stands in for what a text leaves out. So a configuration that has a text is
read back from it, and whatever has been read has a text again (`Config.text_round_trip`).
-/

namespace TransactionalHeap

open Toml (Field Struct Library)

namespace Config

/-! ## Settings -/

theorem fits_word (n : UInt32) : Toml.fits n.toNat = true :=
  Toml.fits_natCast.mpr (Nat.lt_trans n.toNat_lt (by decide))

theorem fits_retries (n : Option UInt32) : (retriesField n).fits = true := by
  cases n with
  | none => rfl
  | some n => exact fits_word n

theorem fits_lockPolicy (p : LockPolicy) : p.field.fits = true := by
  cases p with
  | failFast => rfl
  | spin attempts => simp [LockPolicy.field, Field.fits, fits_word]

theorem fits_backoff (b : Backoff) : b.field.fits = true := by
  cases b with
  | none => rfl
  | exponential maxSpins => simp [Backoff.field, Field.fits, fits_word]

theorem lockPolicy_ne_absent (p : LockPolicy) : p.field ≠ .absent := by
  cases p <;> nofun

theorem backoff_ne_absent (b : Backoff) : b.field ≠ .absent := by
  cases b <;> nofun

/-- Only the version may be too large. -/
theorem fits_fields (c : Config) : (∀ f ∈ Struct.fields c, f.2.fits = true) ↔
    c.initialVersion.toNat < 2 ^ 63 := by
  have hversion : (Field.number c.initialVersion.toNat).fits = true ↔
      c.initialVersion.toNat < 2 ^ 63 := Toml.fits_natCast
  simp only [Struct.fields, List.forall_mem_cons, hversion, fits_retries, fits_lockPolicy,
    fits_backoff, List.not_mem_nil, false_implies, implies_true, and_true]

/-- Only the bound on retries may be absent, and in the standard configuration it is. -/
theorem absent_standard {c : Config} {key : String} (mem : (key, .absent) ∈ Struct.fields c) :
    (key, .absent) ∈ Struct.fields (Struct.standard : Config) := by
  simp only [Struct.fields, List.mem_cons, List.not_mem_nil, or_false, Prod.mk.injEq] at mem
  rcases mem with ⟨-, h⟩ | ⟨rfl, -⟩ | ⟨-, h⟩ | ⟨-, h⟩ | ⟨-, h⟩
  · cases h
  · decide
  · exact absurd h.symm (lockPolicy_ne_absent c.lockPolicy)
  · exact absurd h.symm (backoff_ne_absent c.commitBackoff)
  · exact absurd h.symm (backoff_ne_absent c.conflictBackoff)

section

variable [Library Config] {c : Config} {text : String}

theorem toText_eq_ok_iff : c.toText = .ok text ↔ Library.write c = some text := by
  rw [toText]
  cases Library.write c <;> simp

theorem ofText_eq_ok_iff :
    ofText text = .ok c ↔ Library.read text = some c ∧ c.validate = .ok () := by
  rw [ofText]
  cases (Library.read text : Option Config) with
  | none => simp
  | some read =>
    simp only [bind, Except.bind, pure, Except.pure, Option.some.injEq]
    constructor
    · intro h
      split at h <;> cases h
      rename_i hvalid
      exact ⟨rfl, hvalid⟩
    · rintro ⟨rfl, hvalid⟩
      rw [hvalid]

theorem writable_iff (lawful : Toml.Lawful Config) :
    (∃ text, c.toText = .ok text) ↔ c.initialVersion.toNat < 2 ^ 63 := by
  simp only [toText_eq_ok_iff]
  exact (lawful.writes_iff c).trans (fits_fields c)

theorem ofText_of_toText (lawful : Toml.Lawful Config) (valid : c.validate = .ok ())
    (written : c.toText = .ok text) : ofText text = .ok c :=
  ofText_eq_ok_iff.mpr
    ⟨lawful.read_of_write (fun _ => absent_standard) (toText_eq_ok_iff.mp written), valid⟩

/-- A text holds no version that could not be written. -/
theorem version_of_ofText (lawful : Toml.Lawful Config) (read : ofText text = .ok c) :
    c.initialVersion.toNat < 2 ^ 63 := by
  obtain ⟨hread, -⟩ := ofText_eq_ok_iff.mp read
  refine Toml.fits_natCast.mp (lawful.number_fits (fun hstandard => ?_) hread List.mem_cons_self)
  exact (fits_fields _).mpr (by decide) _ hstandard

/-- Over a library that is lawful, a configuration that passes its check has a text just if its
version is at most 2 ^ 63 - 1, and is read back from its text. Whatever a text is read as passes its
check and has a text, which is read as the same configuration. -/
theorem text_round_trip (lawful : Toml.Lawful Config) :
    (∀ c : Config, c.validate = .ok () →
      ((∃ text, c.toText = .ok text) ↔ c.initialVersion.toNat ≤ 2 ^ 63 - 1) ∧
      ∀ text, c.toText = .ok text → ofText text = .ok c) ∧
    ∀ text c, ofText text = .ok c →
      c.validate = .ok () ∧ ∃ text', c.toText = .ok text' ∧ ofText text' = .ok c := by
  refine ⟨fun c valid => ⟨?_, fun text => ofText_of_toText lawful valid⟩, fun text c read => ?_⟩
  · rw [writable_iff lawful]
    omega
  · obtain ⟨-, hvalid⟩ := ofText_eq_ok_iff.mp read
    obtain ⟨text', hwritten⟩ := (writable_iff lawful).mpr (version_of_ofText lawful read)
    exact ⟨hvalid, text', hwritten, ofText_of_toText lawful hvalid hwritten⟩

end

/-- A bound on retries and a kind with a number. -/
def sample : Config := { maxConflictRetries := some 3, lockPolicy := .spin 8, conflictBackoff := .none }

def sampleText : String :=
  "initial_version = 0\nmax_conflict_retries = 3\n" ++
    "\n[lock_policy]\nkind = \"spin\"\nattempts = 8\n" ++
    "\n[commit_backoff]\nkind = \"none\"\n" ++
    "\n[conflict_backoff]\nkind = \"none\"\n"

theorem text_round_trip_sample : Toml.Lawful Config ∧ sample.toText = .ok sampleText ∧
    ofText sampleText = .ok sample := by
  have htext : sample.toText = .ok sampleText := by decide +kernel
  exact ⟨lawful_library, htext, ((text_round_trip lawful_library).1 sample rfl).2 _ htext⟩

end Config

end TransactionalHeap
