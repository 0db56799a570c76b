import TransactionalHeap.Toml.Library

/-!
# Records read back

A lawful library reads a record from its text if the options that are omitted when they are not set
are not set in the standard record either (`Lawful.read_of_write`). Otherwise the record would get
back the standard option instead of none.
-/

namespace TransactionalHeap.Toml

open Struct Library

variable {σ : Type} [Struct σ] [Library σ] {fields standard : Fields} {entries : Entries}

theorem Renders.provides (renders : Renders fields entries)
    (unset : ∀ key, (key, .absent) ∈ fields → (key, .absent) ∈ standard) :
    Provides fields standard entries where
  known := renders.known
  field := by
    rintro ⟨key, field⟩ hmem
    by_cases habsent : field = .absent
    · subst habsent
      exact .inr ⟨renders.omitted key hmem, unset key hmem⟩
    · exact .inl (renders.shown _ hmem habsent)

theorem Lawful.read_of_write (lawful : Lawful σ) {s : σ} {text : String}
    (unset : ∀ key, (key, .absent) ∈ Struct.fields s →
      (key, .absent) ∈ Struct.fields (Struct.standard : σ))
    (written : write s = some text) : read text = some s := by
  obtain ⟨entries, htable, hrenders⟩ := lawful.written s text written
  exact lawful.reads s text entries htable (hrenders.provides unset)

/-- Numbers of a record that was read fit if those of the standard record do. -/
theorem Lawful.number_fits (lawful : Lawful σ) {s : σ} {text key : String} {n : Nat}
    (standard_fits : (key, .number n) ∈ Struct.fields (Struct.standard : σ) →
      Toml.fits n = true)
    (given : read text = some s) (mem : (key, .number n) ∈ Struct.fields s) :
    Toml.fits n = true := by
  obtain ⟨entries, htable, hnumbers⟩ := lawful.read_number s text given
  rcases hnumbers key n mem with hvalue | hstandard
  · exact lawful.holds_fitting text entries htable key n hvalue
  · exact standard_fits hstandard

end TransactionalHeap.Toml
