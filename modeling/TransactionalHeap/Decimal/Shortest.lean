import TransactionalHeap.Binary64
import TransactionalHeap.Text.Digits

/-!
# The shortest decimal of a float

Of all decimals that read back as a float, its text takes the one on the coarsest decimal grid, and
on that grid the one nearest to the value. It has the fewest digits, since a trailing zero would
put it on a coarser grid. Where two points are equally near, the style of the text says which one
it is. The test is exact: the numbers that round to a float form an interval around it, and a grid
that meets the interval does so at one of the value's two neighbours.
-/

namespace TransactionalHeap

/-- The number `digits * 10 ^ exponent`. -/
structure Decimal where
  digits : Nat
  exponent : Int
  deriving DecidableEq, Repr, Inhabited

namespace Decimal

/-- Where a value goes that lies half way between two points of a grid. -/
inductive Tie where
  /-- To the even point. -/
  | even
  /-- Away from zero. -/
  | away
  deriving DecidableEq, Repr

/-- The whole number nearest to `n / d`. -/
def Tie.roundDiv : Tie → (n d : Nat) → Nat
  | even, n, d => Binary64.roundDiv n d
  | away, n, d => (2 * n + d) / (2 * d)

/-- The numbers that round to a float, as bounds in quarters of its unit. A bound is one of them
if the mantissa is even. -/
structure Interval where
  low : Nat
  high : Nat
  closed : Bool
  deriving DecidableEq, Repr

/-- The next float below a power of two is half as far away. -/
def Interval.around (mantissa : Nat) (exponent : Int) : Interval where
  low :=
    if mantissa = Binary64.fractionUnit ∧ Binary64.leastExponent < exponent then 4 * mantissa - 1
    else 4 * mantissa - 2
  high := 4 * mantissa + 2
  closed := mantissa % 2 = 0

/-- The ratio of a decimal grid's unit to a power of two. -/
def gridRatio (e q : Int) : Nat × Nat :=
  (Nat.pow 10 e.toNat <<< (-q).toNat, Nat.pow 10 (-e).toNat <<< q.toNat)

/-- The grid's point nearest to the value among those that read back, if there is one. -/
def onGrid? (tie : Tie) (mantissa : Nat) (q e : Int) : Option Nat :=
  let interval := Interval.around mantissa q
  let (unit, quarter) := gridRatio e (q - 2)
  let inside (point : Nat) : Bool :=
    let p := point * unit
    (interval.low * quarter < p && p < interval.high * quarter) ||
      (interval.closed && (p = interval.low * quarter || p = interval.high * quarter))
  let below := 4 * mantissa * quarter / unit
  let nearest := tie.roundDiv (4 * mantissa * quarter) unit
  let other := if nearest = below then below + 1 else below
  if inside nearest then some nearest else if inside other then some other else none

/-- Search the grids from coarse to fine, the next one being `10 ^ (n - 344)`. -/
def searchFrom (tie : Tie) (mantissa : Nat) (q : Int) : (n : Nat) → Decimal
  | 0 => ⟨0, 0⟩
  | n + 1 =>
    let e : Int := (n : Int) - 344
    match onGrid? tie mantissa q e with
    | some digits => ⟨digits, e⟩
    | none => searchFrom tie mantissa q n

/-- The shortest decimal that reads back as the float `mantissa * 2 ^ q`. -/
def shortest (tie : Tie) (mantissa : Nat) (q : Int) : Decimal := searchFrom tie mantissa q 654

end Decimal

/-- How floats are written: between two decimal exponents of the first digit positionally, else
with an exponent. -/
structure FloatStyle where
  least : Int
  greatest : Int
  /-- Whether a positive exponent has a plus sign. -/
  plus : Bool
  /-- Which of two equally near decimals is written. -/
  tie : Decimal.Tie
  deriving DecidableEq, Repr

namespace FloatStyle

open Text

def zeros (n : Nat) : List Char := List.replicate n '0'

/-- Digits with a point after the first `whole` of them, and one digit on each side at least. -/
def positional (ds : List Char) (exponent : Int) : List Char :=
  let lead := exponent + ds.length
  if 0 ≤ exponent then ds ++ zeros exponent.toNat ++ ['.', '0']
  else if 0 < lead then ds.take lead.toNat ++ '.' :: ds.drop lead.toNat
  else '0' :: '.' :: zeros (-lead).toNat ++ ds

def scientific (plus : Bool) (ds : List Char) (lead : Int) : List Char :=
  let point := if ds.length ≤ 1 then [] else ['.']
  let sign := if lead < 0 then ['-'] else if plus then ['+'] else []
  ds.take 1 ++ point ++ ds.drop 1 ++ 'e' :: sign ++ digits lead.natAbs

/-- The text of a finite float. -/
def write (style : FloatStyle) (negative : Bool) (mantissa : Nat) (exponent : Int) : String :=
  let sign := if negative then ['-'] else []
  if mantissa = 0 then String.ofList (sign ++ ['0', '.', '0'])
  else
    let d := Decimal.shortest style.tie mantissa exponent
    let ds := digits d.digits
    let lead := d.exponent + ds.length - 1
    let body :=
      if style.least ≤ lead ∧ lead ≤ style.greatest then positional ds d.exponent
      else scientific style.plus ds lead
    String.ofList (sign ++ body)

end FloatStyle

end TransactionalHeap
