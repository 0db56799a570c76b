/-!
# Decimal digits

Whole numbers as decimal digits and back. Reading the digits of a number gives the number.
-/

namespace TransactionalHeap.Text

def digitChar (n : Nat) : Char := Char.ofNat ('0'.toNat + n)

/-- The digits of a number, without leading zeros. -/
def digits (n : Nat) : List Char :=
  if n < 10 then [digitChar n] else digits (n / 10) ++ [digitChar (n % 10)]

/-- The value of a digit below ten. -/
def digit? (c : Char) : Option Nat :=
  if '0' ≤ c ∧ c ≤ '9' then some (c.toNat - '0'.toNat) else none

/-- The value of a digit in a base up to sixteen, in either case. -/
def digitIn? (base : Nat) (c : Char) : Option Nat :=
  let value :=
    if '0' ≤ c ∧ c ≤ '9' then some (c.toNat - '0'.toNat)
    else if 'a' ≤ c ∧ c ≤ 'f' then some (c.toNat - 'a'.toNat + 10)
    else if 'A' ≤ c ∧ c ≤ 'F' then some (c.toNat - 'A'.toNat + 10)
    else none
  value.filter (· < base)

/-- The number that digits stand for in a base. -/
def numberOf (base : Nat) (ds : List Nat) : Nat := ds.foldl (fun n d => n * base + d) 0

theorem digit?_digitChar {n : Nat} (h : n < 10) : digit? (digitChar n) = some n := by
  have : ∀ k : Fin 10, digit? (digitChar k.val) = some k.val := by decide
  exact this ⟨n, h⟩

theorem numberOf_append (base : Nat) (ds : List Nat) (d : Nat) :
    numberOf base (ds ++ [d]) = numberOf base ds * base + d := by
  simp [numberOf]

/-- Reading the digits of a number gives the number back. -/
theorem numberOf_digits (n : Nat) :
    ∃ ds, (digits n).map digit? = ds.map some ∧ numberOf 10 ds = n := by
  fun_induction digits n with
  | case1 n h => exact ⟨[n], by simp [digit?_digitChar h], by simp [numberOf]⟩
  | case2 n h ih =>
    obtain ⟨ds, hds, hn⟩ := ih
    refine ⟨ds ++ [n % 10], ?_, ?_⟩
    · simp [hds, digit?_digitChar (Nat.mod_lt n (by decide : 0 < 10))]
    · rw [numberOf_append, hn]; omega

end TransactionalHeap.Text
