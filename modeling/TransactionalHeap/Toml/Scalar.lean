import TransactionalHeap.Binary64
import TransactionalHeap.Text.Digits
import TransactionalHeap.Toml

/-!
# Numbers, booleans and dates of TOML

A bare value is a run of characters that ends at a blank, a comma, a closing bracket or a comment.
It is an integer, a float, a boolean, or a date or time. Digits may be grouped by single
underscores. Integers fit 64 bits with a sign; a float must not be too large.
-/

namespace TransactionalHeap.Toml

open Text

/-! ## Digits in groups -/

/-- Digits of a base with underscores between them, and what follows. -/
def groupedRest (base : Nat) : List Char → List Nat × List Char
  | '_' :: c :: rest =>
    match digitIn? base c with
    | some d => (d :: (groupedRest base rest).1, (groupedRest base rest).2)
    | none => ([], '_' :: c :: rest)
  | c :: rest =>
    match digitIn? base c with
    | some d => (d :: (groupedRest base rest).1, (groupedRest base rest).2)
    | none => ([], c :: rest)
  | [] => ([], [])

/-- One digit at least, and what follows the digits. -/
def grouped? (base : Nat) : List Char → Option (List Nat × List Char)
  | [] => none
  | c :: rest => do
    let d ← digitIn? base c
    return (d :: (groupedRest base rest).1, (groupedRest base rest).2)

/-- Decimal digits without a leading zero, unless zero is all there is. -/
def decimal? (cs : List Char) : Option (List Nat × List Char) :=
  match cs with
  | '0' :: rest => some ([0], rest)
  | cs => grouped? 10 cs

/-- The sign of a number, and what follows it. -/
def sign : List Char → Bool × List Char
  | '-' :: rest => (true, rest)
  | '+' :: rest => (false, rest)
  | cs => (false, cs)

/-! ## Integers -/

def based? (base : Nat) (cs : List Char) : Option Int := do
  let (ds, rest) ← grouped? base cs
  if rest.isEmpty then some (numberOf base ds) else none

def signedDecimal? (cs : List Char) : Option Int := do
  let (negative, cs) := sign cs
  let (ds, rest) ← decimal? cs
  if rest.isEmpty then
    some (if negative then -(numberOf 10 ds : Int) else numberOf 10 ds)
  else none

def integer? (cs : List Char) : Option Int :=
  let n := match cs with
    | '0' :: 'x' :: rest => based? 16 rest
    | '0' :: 'o' :: rest => based? 8 rest
    | '0' :: 'b' :: rest => based? 2 rest
    | cs => signedDecimal? cs
  n.filter fits

/-! ## Floats -/

/-- The exponent of a float, from its letter on. -/
def exponent? : List Char → Option (Int × List Char)
  | 'e' :: rest | 'E' :: rest => do
    let (negative, rest) := sign rest
    let (ds, rest) ← grouped? 10 rest
    return (if negative then -(numberOf 10 ds : Int) else numberOf 10 ds, rest)
  | cs => some (0, cs)

def fraction? : List Char → Option (List Nat × List Char)
  | '.' :: rest => grouped? 10 rest
  | cs => some ([], cs)

/-- A decimal is too large for a float. Powers far out are decided by their number of digits. -/
def overflows (digits : List Nat) (power : Int) : Bool :=
  let n := numberOf 10 digits
  if n = 0 then false
  else if power + digits.length ≤ 300 then false
  else if 400 ≤ power then true
  else Binary64.nearest (n * Nat.pow 10 power.toNat) (Nat.pow 10 (-power).toNat) 0 = Binary64.infinity

def isFloat (cs : List Char) : Bool :=
  let (negative, cs) := sign cs
  if cs = ['i', 'n', 'f'] || cs = ['n', 'a', 'n'] then true
  else
    let parts := do
      let (whole, rest) ← decimal? cs
      if rest.isEmpty then none
      let (fraction, rest) ← fraction? rest
      let (power, rest) ← exponent? rest
      if rest.isEmpty then
        some (negative || !overflows (whole ++ fraction) (power - fraction.length))
      else none
    parts.getD false

/-! ## Dates and times -/

/-- A number written with exactly that many digits, and what follows it. -/
def fixed? : (count : Nat) → List Char → Option (Nat × List Char)
  | 0, cs => some (0, cs)
  | count + 1, c :: rest => do
    let d ← digit? c
    let (n, rest) ← fixed? count rest
    return (d * Nat.pow 10 count + n, rest)
  | _ + 1, [] => none

def isLeap (year : Nat) : Bool := year % 4 = 0 && (year % 100 ≠ 0 || year % 400 = 0)

def daysIn (year month : Nat) : Nat :=
  if month = 2 then if isLeap year then 29 else 28
  else if month = 4 || month = 6 || month = 9 || month = 11 then 30
  else 31

/-- A date at the start of a text, and what follows it. -/
def date? (cs : List Char) : Option (List Char) := do
  let (year, rest) ← fixed? 4 cs
  match rest with
  | '-' :: rest =>
    let (month, rest) ← fixed? 2 rest
    match rest with
    | '-' :: rest =>
      let (day, rest) ← fixed? 2 rest
      if 1 ≤ month ∧ month ≤ 12 ∧ 1 ≤ day ∧ day ≤ daysIn year month then some rest else none
    | _ => none
  | _ => none

/-- The hour and the minute of a time or an offset. -/
def hourMinute? (cs : List Char) : Option (List Char) := do
  let (hour, rest) ← fixed? 2 cs
  match rest with
  | ':' :: rest =>
    let (minute, rest) ← fixed? 2 rest
    if hour < 24 ∧ minute < 60 then some rest else none
  | _ => none

/-- A second may be a leap second, and may have a fraction. -/
def time? (cs : List Char) : Option (List Char) := do
  match ← hourMinute? cs with
  | ':' :: rest =>
    let (second, rest) ← fixed? 2 rest
    if 60 < second then none
    match rest with
    | '.' :: rest =>
      match rest.span fun c => (digit? c).isSome with
      | ([], _) => none
      | (_, rest) => some rest
    | rest => some rest
  | _ => none

def isOffset : List Char → Bool
  | [] | ['Z'] | ['z'] => true
  | '+' :: rest | '-' :: rest => hourMinute? rest = some []
  | _ => false

/-- A time with an offset or without. -/
def isClock (cs : List Char) : Bool := (time? cs).any isOffset

def isDate (cs : List Char) : Bool := date? cs = some []

/-- A date, a time, or both with a letter between them. -/
def isDateTime (cs : List Char) : Bool :=
  match date? cs with
  | some [] => true
  | some ('T' :: rest) | some ('t' :: rest) => isClock rest
  | some _ => false
  | none => time? cs = some []

/-! ## Bare values -/

def endsBare (c : Char) : Bool :=
  c = ' ' || c = '\t' || c = '\n' || c = '\r' || c = ',' || c = ']' || c = '\x7d' || c = '#'

/-- The characters of a bare value, and what follows it. -/
def spanBare : List Char → List Char × List Char
  | [] => ([], [])
  | c :: rest => if endsBare c then ([], c :: rest) else (c :: (spanBare rest).1, (spanBare rest).2)

def bare? (cs : List Char) : Option Toml :=
  match integer? cs with
  | some n => some (int n)
  | none =>
    if cs = ['t', 'r', 'u', 'e'] || cs = ['f', 'a', 'l', 's', 'e'] || isFloat cs || isDateTime cs
    then some other
    else none

/-- The bare value at the start of a text, and what follows it. A date may be followed by one blank
and a time. -/
def bareValue? (cs : List Char) : Option (Toml × List Char) :=
  let (run, rest) := spanBare cs
  match rest with
  | ' ' :: later =>
    let (clock, after) := spanBare later
    if isDate run && !clock.isEmpty then
      if isClock clock then some (other, after) else none
    else (bare? run).map fun v => (v, rest)
  | _ => (bare? run).map fun v => (v, rest)

end TransactionalHeap.Toml
