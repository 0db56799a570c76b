import TransactionalHeap.Decimal.Shortest

/-!
# JSON texts

`Json.ofText?` reads a JSON text, and the writers below give the compact text of strings and floats.

A number without fraction and exponent that fits 64 bits, signed or not, is an integer. Any other
number is a float, computed from the leading digits that fit an unsigned 64-bit word and a power of
ten, with one rounding for each of the two. It need not be the nearest float to the decimal. A
number too large for a float is refused, and so are more than 127 levels of nesting.
-/

namespace TransactionalHeap

inductive Json where
  | null
  | bool (b : Bool)
  | int (n : Int)
  | float (bits : UInt64)
  | string (text : String)
  | array (items : List Json)
  | object (members : List (String × Json))
  deriving Repr, Inhabited

namespace Json

open Text

/-! ## Numbers -/

/-- Digits read into a 64-bit word, and those that found no room. -/
structure Significand where
  value : Nat := 0
  dropped : Nat := 0
  deriving DecidableEq, Repr

def Significand.fits (s : Significand) (d : Nat) : Bool := s.value * 10 + d < UInt64.size

/-- A digit before the point. Once one finds no room, none does. -/
def Significand.push (s : Significand) (d : Nat) : Significand :=
  if s.dropped = 0 && s.fits d then { s with value := s.value * 10 + d }
  else { s with dropped := s.dropped + 1 }

/-- The digits after the point up to the first that finds no room, and how many these are. -/
def Significand.pushFraction (s : Significand) : List Nat → Nat × Nat
  | [] => (s.value, 0)
  | d :: rest =>
    if s.fits d then
      let (value, count) := pushFraction { s with value := s.value * 10 + d } rest
      (value, count + 1)
    else (s.value, 0)

/-- A magnitude times a power of ten. Powers beyond the float range are applied in steps. -/
def applyPower : (steps : Nat) → (magnitude : Nat) → (power : Int) → Option Nat
  | 0, _, _ => some 0
  | steps + 1, magnitude, power =>
    if power.natAbs ≤ 308 then
      let factor := Binary64.nearest (Nat.pow 10 power.natAbs) 1 0
      if 0 ≤ power then
        let product := Binary64.product magnitude factor
        if product = Binary64.infinity then none else some product
      else some (Binary64.quotient magnitude factor)
    else if magnitude = 0 then some 0
    else if 0 ≤ power then none
    else
      let factor := Binary64.nearest (Nat.pow 10 308) 1 0
      applyPower steps (Binary64.quotient magnitude factor) (power + 308)

def floatOf? (negative : Bool) (significand : Nat) (power : Int) : Option Json :=
  (applyPower 4 (Binary64.nearest significand 1 0) power).map fun magnitude =>
    float (Binary64.encode negative magnitude)

/-- The digits at the start of a text, and what follows them. -/
def spanDigits : List Char → List Nat × List Char
  | [] => ([], [])
  | c :: rest =>
    match digit? c with
    | some d => (d :: (spanDigits rest).1, (spanDigits rest).2)
    | none => ([], c :: rest)

/-- An exponent after its letter. -/
def exponentOf? (cs : List Char) : Option (Int × List Char) :=
  let (negative, cs) := match cs with
    | '+' :: rest => (false, rest)
    | '-' :: rest => (true, rest)
    | _ => (false, cs)
  match spanDigits cs with
  | ([], _) => none
  | (ds, rest) =>
    let n : Int := numberOf 10 ds
    some (if negative then -n else n, rest)

/-- The part of a number after its point and before its exponent; empty where there is no point. -/
def fractionOf? : List Char → Option (List Nat × List Char)
  | '.' :: rest =>
    match spanDigits rest with
    | ([], _) => none
    | (ds, rest) => some (ds, rest)
  | cs => some ([], cs)

/-- An integer, unless it is too large for 64 bits or a negative zero. -/
def integer? (negative : Bool) (n : Nat) : Option Json :=
  if negative then if 0 < n ∧ n ≤ 1 <<< 63 then some (int (-n)) else none
  else some (int n)

/-- A number after its sign. -/
def unsigned? (negative : Bool) (cs : List Char) : Option (Json × List Char) := do
  let (whole, rest) := spanDigits cs
  match whole with
  | [] => none
  | d :: more => if d = 0 ∧ !more.isEmpty then none
  let (fraction, rest) ← fractionOf? rest
  let s := whole.foldl Significand.push {}
  let (value, placed) := s.pushFraction fraction
  let power : Int := s.dropped - placed
  match rest with
  | 'e' :: rest | 'E' :: rest => do
    let (exponent, rest) ← exponentOf? rest
    return (← floatOf? negative value (power + exponent), rest)
  | rest =>
    if fraction.isEmpty && s.dropped = 0 then
      match integer? negative value with
      | some n => return (n, rest)
      | none => return (float (Binary64.encode negative (Binary64.nearest value 1 0)), rest)
    else return (← floatOf? negative value power, rest)

def number? : List Char → Option (Json × List Char)
  | '-' :: rest => unsigned? true rest
  | cs => unsigned? false cs

/-! ## Strings -/

/-- Four hexadecimal digits. -/
def unit? (a b c d : Char) : Option Nat := do
  return numberOf 16 [← digitIn? 16 a, ← digitIn? 16 b, ← digitIn? 16 c, ← digitIn? 16 d]

/-- The character that a letter after a backslash stands for. -/
def escaped? : Char → Option Char
  | '"' => some '"'
  | '\\' => some '\\'
  | '/' => some '/'
  | 'b' => some '\x08'
  | 'f' => some '\x0c'
  | 'n' => some '\n'
  | 'r' => some '\r'
  | 't' => some '\t'
  | _ => none

/-- The code point of a surrogate pair. -/
def pair? (high low : Nat) : Option Char :=
  if 0xDC00 ≤ low ∧ low < 0xE000 then
    some (Char.ofNat (0x10000 + (high - 0xD800) * 0x400 + (low - 0xDC00)))
  else none

/-- The characters up to the closing quote, and what follows it. -/
def stringRest? : List Char → Option (List Char × List Char)
  | [] => none
  | '"' :: rest => some ([], rest)
  | '\\' :: 'u' :: a :: b :: c :: d :: rest => do
    let unit ← unit? a b c d
    if 0xD800 ≤ unit ∧ unit < 0xDC00 then
      match rest with
      | '\\' :: 'u' :: e :: f :: g :: h :: rest =>
        let c ← pair? unit (← unit? e f g h)
        let (text, rest) ← stringRest? rest
        return (c :: text, rest)
      | _ => none
    else if 0xDC00 ≤ unit ∧ unit < 0xE000 then none
    else
      let (text, rest) ← stringRest? rest
      return (Char.ofNat unit :: text, rest)
  | '\\' :: e :: rest => do
    let c ← escaped? e
    let (text, rest) ← stringRest? rest
    return (c :: text, rest)
  | c :: rest => do
    if c.toNat < 0x20 then none
    let (text, rest) ← stringRest? rest
    return (c :: text, rest)

/-! ## Tokens -/

inductive Token where
  | braceOpen | braceClose | bracketOpen | bracketClose | colon | comma
  /-- A value without parts. -/
  | leaf (j : Json)
  deriving Repr, Inhabited

/-- The token at the start of a text that is not blank there, and what follows it. -/
def token? : List Char → Option (Token × List Char)
  | '\x7b' :: rest => some (.braceOpen, rest)
  | '\x7d' :: rest => some (.braceClose, rest)
  | '[' :: rest => some (.bracketOpen, rest)
  | ']' :: rest => some (.bracketClose, rest)
  | ':' :: rest => some (.colon, rest)
  | ',' :: rest => some (.comma, rest)
  | '"' :: rest => (stringRest? rest).map fun r => (.leaf (string (String.ofList r.1)), r.2)
  | 'n' :: 'u' :: 'l' :: 'l' :: rest => some (.leaf null, rest)
  | 't' :: 'r' :: 'u' :: 'e' :: rest => some (.leaf (bool true), rest)
  | 'f' :: 'a' :: 'l' :: 's' :: 'e' :: rest => some (.leaf (bool false), rest)
  | cs => (number? cs).map fun r => (.leaf r.1, r.2)

def isBlank (c : Char) : Bool := c = ' ' || c = '\n' || c = '\t' || c = '\r'

/-- All tokens of a text. Each takes a character at least, so `fuel` need not exceed the length. -/
def tokensFrom : (fuel : Nat) → List Char → Option (List Token)
  | _, [] => some []
  | 0, _ :: _ => none
  | fuel + 1, c :: rest =>
    if isBlank c then tokensFrom fuel rest
    else do
      let (token, rest) ← token? (c :: rest)
      return token :: (← tokensFrom fuel rest)

def tokens? (cs : List Char) : Option (List Token) := tokensFrom cs.length cs

/-! ## Values -/

mutual

/-- A value that may be nested `depth` levels deep. -/
def valueFrom : (fuel depth : Nat) → List Token → Option (Json × List Token)
  | 0, _, _ => none
  | _ + 1, _, .leaf j :: rest => some (j, rest)
  | fuel + 1, depth + 1, .bracketOpen :: rest =>
    match rest with
    | .bracketClose :: rest => some (array [], rest)
    | _ => (itemsFrom fuel depth rest).map fun r => (array r.1, r.2)
  | fuel + 1, depth + 1, .braceOpen :: rest =>
    match rest with
    | .braceClose :: rest => some (object [], rest)
    | _ => (membersFrom fuel depth rest).map fun r => (object r.1, r.2)
  | _, _, _ => none

/-- The items up to the closing bracket. -/
def itemsFrom : (fuel depth : Nat) → List Token → Option (List Json × List Token)
  | 0, _, _ => none
  | fuel + 1, depth, tokens => do
    match ← valueFrom fuel depth tokens with
    | (item, .comma :: rest) =>
      let (items, rest) ← itemsFrom fuel depth rest
      return (item :: items, rest)
    | (item, .bracketClose :: rest) => return ([item], rest)
    | _ => none

/-- The members up to the closing brace. -/
def membersFrom : (fuel depth : Nat) → List Token → Option (List (String × Json) × List Token)
  | fuel + 1, depth, .leaf (.string key) :: .colon :: tokens => do
    match ← valueFrom fuel depth tokens with
    | (value, .comma :: rest) =>
      let (members, rest) ← membersFrom fuel depth rest
      return ((key, value) :: members, rest)
    | (value, .braceClose :: rest) => return ([(key, value)], rest)
    | _ => none
  | _, _, _ => none

end

/-- The levels of nesting that a text may have. -/
def maxDepth : Nat := 127

/-- Read a text that holds one value and nothing else. -/
def ofText? (text : String) : Option Json := do
  let tokens ← tokens? text.toList
  match ← valueFrom (2 * tokens.length + 1) maxDepth tokens with
  | (j, []) => return j
  | _ => none

/-! ## Writing -/

/-- One character inside a string. -/
def escape (c : Char) : List Char :=
  if c = '"' then ['\\', '"']
  else if c = '\\' then ['\\', '\\']
  else if c = '\x08' then ['\\', 'b']
  else if c = '\t' then ['\\', 't']
  else if c = '\n' then ['\\', 'n']
  else if c = '\x0c' then ['\\', 'f']
  else if c = '\r' then ['\\', 'r']
  else if c.toNat < 0x20 then
    ['\\', 'u', '0', '0'] ++ (if c.toNat < 0x10 then ['0'] else []) ++ Nat.toDigits 16 c.toNat
  else [c]

def writeString (text : String) : String :=
  "\"" ++ String.ofList (text.toList.flatMap escape) ++ "\""

/-- Floats are positional from 0.00001 to below 10 ^ 16. -/
def floatStyle : FloatStyle := ⟨-5, 15, true, .even⟩

/-- A float that is no number is written as null. -/
def writeFloat (bits : UInt64) : String :=
  match Binary64.decode bits with
  | .finite negative mantissa exponent => floatStyle.write negative mantissa exponent
  | .infinite _ | .nan => "null"

end Json

end TransactionalHeap
