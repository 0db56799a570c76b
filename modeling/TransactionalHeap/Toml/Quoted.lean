import TransactionalHeap.Text.Digits

/-!
# Strings of TOML

A string stands between double quotes, where a backslash starts an escape, or between single
quotes, where it does not. Three quotes make it run over line ends; one right after the opening
quotes is dropped.
-/

namespace TransactionalHeap.Toml

open Text

/-- A tab, or a character that is no control. -/
def isTextual (c : Char) : Bool := c = '\t' || (0x20 ≤ c.toNat && c.toNat ≠ 0x7F)

/-- The character of a code point. Surrogates have none. -/
def scalar? (n : Nat) : Option Char :=
  if n < 0xD800 ∨ (0xE000 ≤ n ∧ n ≤ 0x10FFFF) then some (Char.ofNat n) else none

/-- The character of a code point in hexadecimal digits. -/
def codePoint? (cs : List Char) : Option Char := do
  scalar? (numberOf 16 (← cs.mapM (digitIn? 16)))

def escaped? : Char → Option Char
  | 'b' => some '\x08'
  | 't' => some '\t'
  | 'n' => some '\n'
  | 'f' => some '\x0c'
  | 'r' => some '\r'
  | '"' => some '"'
  | '\\' => some '\\'
  | _ => none

/-- The character of an escape, after its backslash, and what follows it. -/
def escape? : List Char → Option (Char × List Char)
  | 'u' :: rest =>
    if rest.length < 4 then none else (codePoint? (rest.take 4)).map fun c => (c, rest.drop 4)
  | 'U' :: rest =>
    if rest.length < 8 then none else (codePoint? (rest.take 8)).map fun c => (c, rest.drop 8)
  | e :: rest => (escaped? e).map fun c => (c, rest)
  | [] => none

/-! ## On one line -/

/-- The characters up to the closing double quote, and what follows it. -/
def basicFrom : (fuel : Nat) → List Char → Option (List Char × List Char)
  | 0, _ | _, [] => none
  | _ + 1, '"' :: rest => some ([], rest)
  | fuel + 1, '\\' :: rest => do
    let (c, rest) ← escape? rest
    let (text, rest) ← basicFrom fuel rest
    return (c :: text, rest)
  | fuel + 1, c :: rest =>
    if isTextual c then do
      let (text, rest) ← basicFrom fuel rest
      return (c :: text, rest)
    else none

/-- The characters up to the closing single quote, and what follows it. -/
def literalRest : List Char → Option (List Char × List Char)
  | [] => none
  | '\'' :: rest => some ([], rest)
  | c :: rest =>
    if isTextual c then do
      let (text, rest) ← literalRest rest
      return (c :: text, rest)
    else none

/-! ## Over several lines -/

/-- A line end at the start of a text is dropped. -/
def lineBreak? : List Char → Option (List Char)
  | '\n' :: rest => some rest
  | '\r' :: '\n' :: rest => some rest
  | _ => none

def skipFirstBreak (cs : List Char) : List Char := (lineBreak? cs).getD cs

def isSpace (c : Char) : Bool := c = ' ' || c = '\t'

/-- The blanks and line ends that a backslash at the end of a line swallows. -/
def skipBlank : (fuel : Nat) → List Char → List Char
  | 0, cs => cs
  | fuel + 1, cs =>
    match lineBreak? cs with
    | some rest => skipBlank fuel rest
    | none =>
      match cs with
      | c :: rest => if isSpace c then skipBlank fuel rest else cs
      | [] => []

/-- What a backslash at the end of a line leaves, if this is one. -/
def continuation? (cs : List Char) : Option (List Char) :=
  (lineBreak? (cs.dropWhile isSpace)).map fun rest => skipBlank rest.length rest

/-- What follows three closing quotes. Up to two more right before them belong to the text. -/
def closing? (quote : Char) (cs : List Char) : Option (List Char × List Char) :=
  let count := (cs.takeWhile (· = quote)).length
  if 3 ≤ count ∧ count ≤ 5 then some (List.replicate (count - 3) quote, cs.drop count) else none

/-- The characters up to three closing quotes, and what follows them. -/
def multiLineFrom (quote : Char) (escapes : Bool) :
    (fuel : Nat) → List Char → Option (List Char × List Char)
  | 0, _ | _, [] => none
  | fuel + 1, c :: rest =>
    match closing? quote (c :: rest) with
    | some closed => some closed
    | none =>
      if c = quote ∧ 5 < ((c :: rest).takeWhile (· = quote)).length then none
      else if c = '\\' ∧ escapes = true then
        match continuation? rest with
        | some rest => multiLineFrom quote escapes fuel rest
        | none => do
          let (c, rest) ← escape? rest
          let (text, rest) ← multiLineFrom quote escapes fuel rest
          return (c :: text, rest)
      else
        match lineBreak? (c :: rest) with
        | some rest => do
          let (text, rest) ← multiLineFrom quote escapes fuel rest
          return ('\n' :: text, rest)
        | none =>
          if isTextual c then do
            let (text, rest) ← multiLineFrom quote escapes fuel rest
            return (c :: text, rest)
          else none

/-! ## Both -/

/-- A string on one line, from its opening quote on. -/
def lineString? : List Char → Option (List Char × List Char)
  | '"' :: rest => basicFrom (rest.length + 1) rest
  | '\'' :: rest => literalRest rest
  | _ => none

/-- Any string, from its opening quotes on. -/
def string? : List Char → Option (List Char × List Char)
  | '"' :: '"' :: '"' :: rest =>
    multiLineFrom '"' true (rest.length + 1) (skipFirstBreak rest)
  | '\'' :: '\'' :: '\'' :: rest =>
    multiLineFrom '\'' false (rest.length + 1) (skipFirstBreak rest)
  | cs => lineString? cs

end TransactionalHeap.Toml
