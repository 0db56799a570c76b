import Mathlib.Algebra.Group.Nat.Defs
import Mathlib.Data.List.TakeDrop
import TransactionalHeap.Toml.Statement

/-!
# Numbers and names read back

The digits of a number that fits are read as that number, and a name of bare characters is read as
itself, with quotes or as a key. Everything that comes after the characters is left for later.
-/

namespace TransactionalHeap

namespace Text

theorem digit?_eq_some {c : Char} {d : Nat} (h : digit? c = some d) :
    '0' ≤ c ∧ c ≤ '9' ∧ d = c.toNat - '0'.toNat ∧ d < 10 := by
  rw [digit?] at h
  split at h
  · rename_i hc
    obtain rfl := Option.some.inj h
    refine ⟨hc.1, hc.2, rfl, ?_⟩
    have := hc.2
    rw [Char.le_def, UInt32.le_iff_toNat_le] at this
    simp at this ⊢
    omega
  · cases h

theorem digitIn?_of_digit? {c : Char} {d : Nat} (h : digit? c = some d) :
    digitIn? 10 c = some d := by
  obtain ⟨hlow, hhigh, rfl, hlt⟩ := digit?_eq_some h
  rw [digitIn?, if_pos ⟨hlow, hhigh⟩]
  simpa using hlt

theorem digit?_of_mem_digits {n : Nat} {c : Char} (h : c ∈ digits n) : ∃ d, digit? c = some d := by
  obtain ⟨ds, hds, -⟩ := numberOf_digits n
  have hmem := List.mem_map_of_mem (f := digit?) h
  rw [hds, List.mem_map] at hmem
  obtain ⟨d, -, hd⟩ := hmem
  exact ⟨d, hd.symm⟩

theorem digits_ne_nil (n : Nat) : digits n ≠ [] := by
  rw [digits]
  split <;> simp

/-- Only zero starts with a zero. -/
theorem digits_head {n : Nat} (hn : n ≠ 0) : ∃ c rest, digits n = c :: rest ∧ c ≠ '0' := by
  have hchar : ∀ k, k < 10 → digitChar k = '0' → k = 0 := by decide
  fun_induction digits n with
  | case1 n hlt => exact ⟨_, _, rfl, fun h => hn (hchar n hlt h)⟩
  | case2 n hlt ih =>
    obtain ⟨c, rest, hdigits, hc⟩ := ih (by omega)
    exact ⟨c, rest ++ [digitChar (n % 10)], by rw [hdigits]; rfl, hc⟩

theorem digits_ne_zero_cons {n : Nat} {d : Char} {rest : List Char} :
    digits n ≠ '0' :: d :: rest := by
  intro h
  by_cases hn : n = 0
  · rw [hn, digits] at h
    cases h
  · obtain ⟨c, rest', hdigits, hc⟩ := digits_head hn
    rw [hdigits] at h
    exact hc (List.cons.inj h).1

end Text

namespace Toml

open Text

/-! ## Numbers -/

theorem fits_natCast {n : Nat} : fits n = true ↔ n < 2 ^ 63 := by
  have hmin : Int64.minValue.toInt = -9223372036854775808 := by decide
  have hmax : Int64.maxValue.toInt = 9223372036854775807 := by decide
  rw [fits, decide_eq_true_eq, hmin, hmax]
  omega

theorem ne_of_digit {c d : Char} (hc : ∃ k, digit? c = some k) (hd : digit? d = none) : c ≠ d := by
  rintro rfl
  obtain ⟨k, hk⟩ := hc
  rw [hd] at hk
  cases hk

theorem groupedRest_of_digits {cs : List Char} {ds : List Nat}
    (h : cs.map digit? = ds.map some) : groupedRest 10 cs = (ds, []) := by
  induction cs generalizing ds with
  | nil =>
    cases ds with
    | nil => rfl
    | cons d ds => cases h
  | cons c cs ih =>
    cases ds with
    | nil => cases h
    | cons d ds =>
      rw [List.map_cons, List.map_cons, List.cons.injEq] at h
      rw [groupedRest]
      · simp only [digitIn?_of_digit? h.1, ih h.2]
      · exact fun _ _ hc => absurd hc (ne_of_digit ⟨d, h.1⟩ (by decide))

theorem grouped?_of_digits {cs : List Char} {ds : List Nat} (nonempty : cs ≠ [])
    (h : cs.map digit? = ds.map some) : grouped? 10 cs = some (ds, []) := by
  cases cs with
  | nil => exact absurd rfl nonempty
  | cons c cs =>
    cases ds with
    | nil => cases h
    | cons d ds =>
      rw [List.map_cons, List.map_cons, List.cons.injEq] at h
      rw [grouped?, digitIn?_of_digit? h.1, groupedRest_of_digits h.2]
      rfl

theorem signedDecimal?_digits (n : Nat) : signedDecimal? (digits n) = some (n : Int) := by
  by_cases hn : n = 0
  · rw [hn, digits]
    rfl
  · obtain ⟨ds, hds, hnumber⟩ := numberOf_digits n
    obtain ⟨c, rest, hdigits, hc⟩ := digits_head hn
    have hdigit : ∃ k, digit? c = some k := digit?_of_mem_digits (hdigits ▸ List.mem_cons_self)
    have hsign : sign (digits n) = (false, digits n) := by
      rw [hdigits, sign]
      · exact fun _ h => ne_of_digit hdigit (by decide) (List.cons.inj h).1
      · exact fun _ h => ne_of_digit hdigit (by decide) (List.cons.inj h).1
    have hdecimal : decimal? (digits n) = some (ds, []) := by
      rw [decimal?]
      · exact grouped?_of_digits (digits_ne_nil n) hds
      · intro _ h
        rw [hdigits] at h
        exact hc (List.cons.inj h).1
    simp [signedDecimal?, hsign, hdecimal, hnumber]

theorem integer?_digits {n : Nat} (bound : n < 2 ^ 63) : integer? (digits n) = some (n : Int) := by
  rw [integer?, signedDecimal?_digits]
  · exact Option.filter_some_pos (fits_natCast.mpr bound)
  all_goals exact fun _ => digits_ne_zero_cons

/-! ## Bare characters -/

theorem ne_of_isBareKey {c d : Char} (hc : isBareKey c = true) (hd : isBareKey d = false) :
    c ≠ d := by
  rintro rfl
  rw [hc] at hd
  cases hd

theorem isTextual_of_isBareKey {c : Char} (hc : isBareKey c = true) : isTextual c = true := by
  simp only [isBareKey, Bool.or_eq_true, Bool.and_eq_true, decide_eq_true_eq, Char.le_def,
    UInt32.le_iff_toNat_le] at hc
  rcases hc with (((h | h) | h) | rfl) | rfl
  case inl.inr => rfl
  case inr => rfl
  all_goals
    simp at h
    simp [isTextual]
    omega

theorem isSpace_of_isBareKey {c : Char} (hc : isBareKey c = true) : isSpace c = false := by
  simp only [isSpace, Bool.or_eq_false_iff, decide_eq_false_iff_not]
  exact ⟨ne_of_isBareKey hc (by decide), ne_of_isBareKey hc (by decide)⟩

theorem endsBare_of_isBareKey {c : Char} (hc : isBareKey c = true) : endsBare c = false := by
  simp only [endsBare, Bool.or_eq_false_iff, decide_eq_false_iff_not]
  refine ⟨⟨⟨⟨⟨⟨⟨?_, ?_⟩, ?_⟩, ?_⟩, ?_⟩, ?_⟩, ?_⟩, ?_⟩ <;> exact ne_of_isBareKey hc (by decide)

theorem isBareKey_of_mem_digits {n : Nat} {c : Char} (h : c ∈ digits n) : isBareKey c = true := by
  obtain ⟨d, hd⟩ := digit?_of_mem_digits h
  obtain ⟨hlow, hhigh, -⟩ := digit?_eq_some hd
  simp [isBareKey, hlow, hhigh]

theorem digits_exists_cons (n : Nat) : ∃ c cs, digits n = c :: cs ∧ isBareKey c = true := by
  obtain ⟨c, cs, hdigits⟩ := List.exists_cons_of_ne_nil (digits_ne_nil n)
  exact ⟨c, cs, hdigits, isBareKey_of_mem_digits (hdigits ▸ List.mem_cons_self)⟩

/-- A name that needs no quotes. -/
def IsPlain (name : String) : Prop :=
  name.toList ≠ [] ∧ ∀ c ∈ name.toList, isBareKey c = true

instance : DecidablePred IsPlain := fun name =>
  decidable_of_iff (name.toList ≠ [] ∧ name.toList.all isBareKey = true)
    (and_congr_right' List.all_eq_true)

theorem IsPlain.exists_cons {name : String} (plain : IsPlain name) :
    ∃ c cs, name.toList = c :: cs ∧ isBareKey c = true := by
  obtain ⟨c, cs, hname⟩ := List.exists_cons_of_ne_nil plain.1
  exact ⟨c, cs, hname, plain.2 c (hname ▸ List.mem_cons_self)⟩

theorem skipSpaces_of_not_isSpace {c : Char} (hc : isSpace c = false) (rest : List Char) :
    skipSpaces (c :: rest) = c :: rest :=
  List.dropWhile_cons_of_neg (by simp [hc])

/-! ## Values -/

theorem spanBare_append {cs rest : List Char} {d : Char} (bare : ∀ c ∈ cs, isBareKey c = true)
    (ends : endsBare d = true) : spanBare (cs ++ d :: rest) = (cs, d :: rest) := by
  induction cs with
  | nil => rw [List.nil_append, spanBare, if_pos ends]
  | cons c cs ih =>
    have hc := endsBare_of_isBareKey (bare c List.mem_cons_self)
    rw [List.cons_append, spanBare, if_neg (by simp [hc]),
      ih fun c' hc' => bare c' (List.mem_cons_of_mem _ hc')]

theorem bareValue?_digits {n : Nat} (bound : n < 2 ^ 63) (rest : List Char) :
    bareValue? (digits n ++ '\n' :: rest) = some (.int n, '\n' :: rest) := by
  have hspan : spanBare (digits n ++ '\n' :: rest) = (digits n, '\n' :: rest) :=
    spanBare_append (fun _ => isBareKey_of_mem_digits) (by decide)
  simp [bareValue?, hspan, bare?, integer?_digits bound]

theorem valueFrom_digits {n : Nat} (bound : n < 2 ^ 63) (fuel depth : Nat) (rest : List Char) :
    valueFrom (fuel + 1) depth (digits n ++ '\n' :: rest) = some (.int n, '\n' :: rest) := by
  obtain ⟨c, cs, hdigits, hc⟩ := digits_exists_cons n
  rw [← bareValue?_digits bound, hdigits, List.cons_append, valueFrom]
  all_goals exact fun _ h => ne_of_isBareKey hc (by decide) (List.cons.inj h).1

theorem basicFrom_plain {name rest : List Char} (plain : ∀ c ∈ name, isBareKey c = true)
    {fuel : Nat} (enough : name.length < fuel) :
    basicFrom fuel (name ++ '"' :: rest) = some (name, rest) := by
  induction name generalizing fuel with
  | nil =>
    obtain ⟨fuel, rfl⟩ := Nat.exists_eq_succ_of_ne_zero (Nat.ne_of_gt enough)
    rfl
  | cons c name ih =>
    obtain ⟨fuel, rfl⟩ := Nat.exists_eq_succ_of_ne_zero (Nat.ne_of_gt (Nat.zero_lt_of_lt enough))
    have hc := plain c List.mem_cons_self
    have hlater := ih (fun c' hc' => plain c' (List.mem_cons_of_mem _ hc'))
      (Nat.lt_of_succ_lt_succ enough)
    rw [List.cons_append, basicFrom]
    · rw [if_pos (isTextual_of_isBareKey hc), hlater]
      rfl
    · exact ne_of_isBareKey hc (by decide)
    · exact ne_of_isBareKey hc (by decide)

theorem valueFrom_quoted {name : String} (plain : IsPlain name) (fuel depth : Nat)
    (rest : List Char) :
    valueFrom (fuel + 1) depth ('"' :: name.toList ++ '"' :: rest) = some (.string name, rest) := by
  have hstring : string? ('"' :: name.toList ++ '"' :: rest) = some (name.toList, rest) := by
    obtain ⟨c, cs, hname, hc⟩ := plain.exists_cons
    rw [List.cons_append, string?]
    · rw [lineString?]
      exact basicFrom_plain plain.2 (by
        rw [List.length_append, List.length_cons]
        omega)
    · intro _ h
      rw [hname] at h
      exact ne_of_isBareKey hc (by decide) (List.cons.inj (List.cons.inj h).2).1
    · simp
  rw [List.cons_append] at hstring ⊢
  rw [valueFrom, hstring, Option.map_some, String.ofList_toList]

/-! ## Keys -/

theorem simpleKey?_plain {name : String} (plain : IsPlain name) {d : Char}
    (ends : isBareKey d = false) (rest : List Char) :
    simpleKey? (name.toList ++ d :: rest) = some (name, d :: rest) := by
  have hspan : (name.toList ++ d :: rest).span isBareKey = (name.toList, d :: rest) := by
    rw [List.span_eq_takeWhile_dropWhile, List.takeWhile_append_of_pos plain.2,
      List.dropWhile_append_of_pos plain.2, List.takeWhile_cons_of_neg (by simp [ends]),
      List.dropWhile_cons_of_neg (by simp [ends]), List.append_nil]
  obtain ⟨c, cs, hname, hc⟩ := plain.exists_cons
  have hofList : String.ofList (c :: cs) = name := by rw [← hname, String.ofList_toList]
  rw [hname] at hspan ⊢
  rw [simpleKey?, hspan, ← hofList]
  all_goals exact fun _ h => ne_of_isBareKey hc (by decide) (List.cons.inj h).1

theorem key?_plain {name : String} (plain : IsPlain name) {d e : Char} {rest later : List Char}
    (ends : isBareKey d = false) (skips : skipSpaces (d :: rest) = e :: later) (single : e ≠ '.') :
    key? maxDepth (name.toList ++ d :: rest) = some ([name], e :: later) := by
  have hskip : skipSpaces (name.toList ++ d :: rest) = name.toList ++ d :: rest := by
    obtain ⟨c, cs, hname, hc⟩ := plain.exists_cons
    rw [hname]
    exact skipSpaces_of_not_isSpace (isSpace_of_isBareKey hc) _
  rw [maxDepth, key?, hskip, simpleKey?_plain plain ends]
  simp only [bind, pure, Option.bind_some, skips]
  split
  · rename_i h
    exact absurd (List.cons.inj h).1 single
  · rfl

end Toml

end TransactionalHeap
