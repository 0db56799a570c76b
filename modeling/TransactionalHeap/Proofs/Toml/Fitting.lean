import TransactionalHeap.Proofs.Toml.Scalars

/-!
# Numbers of a document fit 64 bits

Every number that a text assigns fits 64 bits with a sign, and no statement brings another one to the
top of a document.
-/

namespace TransactionalHeap.Toml

/-- A value that is a number is one that fits. -/
def Fits : Toml → Prop
  | .int n => fits n = true
  | _ => True

/-- So is every value of a table. -/
def FitsAll (entries : Entries) : Prop := ∀ e ∈ entries, e.2.Fits

def Statement.Fits : Statement → Prop
  | .header _ | .arrayHeader _ => True
  | .assign _ value => value.Fits

/-! ## Texts -/

section Texts

variable {cs rest : List Char} {value : Toml}

theorem bare?_fits (read : bare? cs = some value) : value.Fits := by
  rw [bare?] at read
  split at read
  · rename_i m hm
    cases read
    unfold integer? at hm
    exact (Option.filter_eq_some_iff.mp hm).2
  · split at read <;> cases read
    trivial

theorem bareValue?_fits (read : bareValue? cs = some (value, rest)) : value.Fits := by
  have hbare : ∀ {run after}, (bare? run).map (fun v => (v, after)) = some (value, rest) →
      value.Fits := by
    intro run after h
    obtain ⟨v, hv, heq⟩ := Option.map_eq_some_iff.mp h
    cases heq
    exact bare?_fits hv
  simp only [bareValue?] at read
  split at read
  · split at read
    · split at read
      · cases read
        trivial
      · cases read
    · exact hbare read
  · exact hbare read

theorem valueFrom_fits {fuel depth : Nat} (read : valueFrom fuel depth cs = some (value, rest)) :
    value.Fits := by
  cases fuel with
  | zero => cases read
  | succ fuel =>
    unfold valueFrom at read
    split at read
    iterate 2
      obtain ⟨r, -, heq⟩ := Option.map_eq_some_iff.mp read
      cases heq
      trivial
    · split at read
      · cases read
      · obtain ⟨r, -, heq⟩ := Option.map_eq_some_iff.mp read
        cases heq
        trivial
    · split at read
      · cases read
      · split at read
        · cases read
          trivial
        · obtain ⟨r, -, heq⟩ := Option.map_eq_some_iff.mp read
          cases heq
          trivial
    · exact bareValue?_fits read

theorem assignmentFrom_fits {fuel depth : Nat} {path : List String}
    (read : assignmentFrom fuel depth cs = some (path, value, rest)) : value.Fits := by
  cases fuel with
  | zero => cases read
  | succ fuel =>
    rw [assignmentFrom] at read
    obtain ⟨⟨path', after⟩, -, read⟩ := Option.bind_eq_some_iff.mp read
    split at read
    · obtain ⟨⟨v, after'⟩, hvalue, read⟩ := Option.bind_eq_some_iff.mp read
      cases read
      exact valueFrom_fits hvalue
    · cases read

theorem statement?_fits {s : Statement} (read : statement? cs = some (s, rest)) : s.Fits := by
  unfold statement? at read
  split at read
  · obtain ⟨⟨path, after⟩, -, read⟩ := Option.bind_eq_some_iff.mp read
    split at read <;> cases read
    trivial
  · obtain ⟨⟨path, after⟩, -, read⟩ := Option.bind_eq_some_iff.mp read
    split at read <;> cases read
    trivial
  · obtain ⟨⟨path, value, after⟩, hassign, read⟩ := Option.bind_eq_some_iff.mp read
    cases read
    exact assignmentFrom_fits hassign

theorem statementsFrom_fits {fuel : Nat} {ss : List Statement}
    (read : statementsFrom fuel cs = some ss) : ∀ s ∈ ss, s.Fits := by
  fun_induction statementsFrom fuel cs generalizing ss with
  | case1 => cases read; simp
  | case2 => cases read
  | case3 fuel c cs rest hline ih => exact ih read
  | case4 fuel c cs hline ih =>
    obtain ⟨⟨s, after⟩, hs, read⟩ := Option.bind_eq_some_iff.mp read
    obtain ⟨rest, hend, read⟩ := Option.bind_eq_some_iff.mp read
    obtain ⟨later, hlater, read⟩ := Option.bind_eq_some_iff.mp read
    cases read
    exact List.forall_mem_cons.mpr ⟨statement?_fits hs, ih rest hlater⟩

end Texts

/-! ## Tables -/

section Tables

variable {entries entries' : Entries} {key : String} {value : Toml} {origin : TableOrigin}

theorem FitsAll.append (fit : FitsAll entries) (key : String) (fits : value.Fits) :
    FitsAll (entries ++ [(key, value)]) := by
  intro e he
  rcases List.mem_append.mp he with he | he
  · exact fit e he
  · rw [List.mem_singleton.mp he]
    exact fits

theorem FitsAll.replace (fit : FitsAll entries) (key : String) (fits : value.Fits) :
    FitsAll (replace entries key value) := by
  intro e he
  obtain ⟨old, hold, rfl⟩ := List.mem_map.mp he
  split
  · exact fits
  · exact fit old hold

/-- Whatever is changed further in, what is seen of it here is a table. -/
theorem FitsAll.within (fit : FitsAll entries) {dotted : Bool} {path : List String}
    {change : TableOrigin → Entries → Option Entries}
    (keeps : ∀ changed, change origin entries = some changed → FitsAll changed)
    (done : within dotted change path origin entries = some entries') : FitsAll entries' := by
  cases path with
  | nil => exact keeps _ done
  | cons key path =>
    rw [Toml.within] at done
    split at done
    · obtain ⟨inner, -, heq⟩ := Option.bind_eq_some_iff.mp done
      cases heq
      exact fit.append key trivial
    · split at done
      · cases done
      · obtain ⟨inner, -, heq⟩ := Option.bind_eq_some_iff.mp done
        cases heq
        exact fit.replace key trivial
    · obtain ⟨inner, -, heq⟩ := Option.bind_eq_some_iff.mp done
      cases heq
      exact fit.replace key trivial
    · cases done

theorem FitsAll.assign (fit : FitsAll entries) {path : List String} (fits : value.Fits)
    (done : Toml.assign path value origin entries = some entries') : FitsAll entries' := by
  rw [Toml.assign] at done
  split at done
  · cases done
  · refine fit.within (fun changed hdefine => ?_) done
    rw [define] at hdefine
    split at hdefine
    · cases hdefine
    · split at hdefine <;> cases hdefine
      exact fit.append _ fits

theorem FitsAll.openTable (fit : FitsAll entries)
    (done : openTable key origin entries = some entries') : FitsAll entries' := by
  rw [Toml.openTable] at done
  split at done <;> cases done
  · exact fit.append key trivial
  · exact fit.replace key trivial

theorem FitsAll.openElement (fit : FitsAll entries)
    (done : openElement key origin entries = some entries') : FitsAll entries' := by
  rw [Toml.openElement] at done
  split at done <;> cases done
  · exact fit.append key trivial
  · exact fit.replace key trivial

theorem FitsAll.atParent (fit : FitsAll entries) {path : List String}
    {change : String → TableOrigin → Entries → Option Entries}
    (keeps : ∀ key origin changed, change key origin entries = some changed → FitsAll changed)
    (done : atParent change path entries = some entries') : FitsAll entries' := by
  rw [Toml.atParent] at done
  split at done
  · cases done
  · exact fit.within (keeps _ _) done

/-- One statement keeps the top of a document within 64 bits. -/
theorem FitsAll.add {d d' : Draft} {s : Statement} (fit : FitsAll d.entries) (fits : s.Fits)
    (done : d.add s = some d') : FitsAll d'.entries := by
  cases s with
  | header path =>
    obtain ⟨changed, hopen, heq⟩ := Option.bind_eq_some_iff.mp done
    cases heq
    exact fit.atParent (fun _ _ _ => fit.openTable) hopen
  | arrayHeader path =>
    obtain ⟨changed, hopen, heq⟩ := Option.bind_eq_some_iff.mp done
    cases heq
    exact fit.atParent (fun _ _ _ => fit.openElement) hopen
  | assign path value =>
    obtain ⟨changed, hassign, heq⟩ := Option.bind_eq_some_iff.mp done
    cases heq
    exact fit.within (fun _ => fit.assign fits) hassign

theorem FitsAll.foldlM_add {ss : List Statement} {d d' : Draft} (fit : FitsAll d.entries)
    (fits : ∀ s ∈ ss, s.Fits) (done : ss.foldlM Draft.add d = some d') : FitsAll d'.entries := by
  induction ss generalizing d with
  | nil =>
    cases done
    exact fit
  | cons s ss ih =>
    rw [List.foldlM_cons] at done
    obtain ⟨next, hnext, hlater⟩ := Option.bind_eq_some_iff.mp done
    obtain ⟨hs, hss⟩ := List.forall_mem_cons.mp fits
    exact ih (fit.add hs hnext) hss hlater

end Tables

/-- A number at the top of a document that can be read fits 64 bits. -/
theorem ofText?_fits {text : String} {entries : Entries} (read : ofText? text = some entries) :
    FitsAll entries := by
  obtain ⟨ss, hread, hdraft⟩ := Option.bind_eq_some_iff.mp read
  obtain ⟨d, hfold, heq⟩ := Option.bind_eq_some_iff.mp hdraft
  cases heq
  have hempty : FitsAll ({} : Draft).entries := fun e he => by cases he
  exact hempty.foldlM_add (statementsFrom_fits hread) hfold

end TransactionalHeap.Toml
