import TransactionalHeap.Toml.Quoted
import TransactionalHeap.Toml.Scalar

/-!
# Statements of a TOML document

A document is a list of statements, one a line: a header, or a key with its value. Blank lines and
comments say nothing. Whether the statements fit together is not decided here, except inside
braces, where a table is complete at once.
-/

namespace TransactionalHeap.Toml

inductive Statement where
  | header (path : List String)
  | arrayHeader (path : List String)
  | assign (path : List String) (value : Toml)
  deriving Repr

/-! ## Blanks, comments and line ends -/

def skipSpaces (cs : List Char) : List Char := cs.dropWhile isSpace

/-- What follows a comment on its line, and the text itself where there is none. -/
def skipComment : List Char → List Char
  | '#' :: rest => rest.dropWhile isTextual
  | cs => cs

/-- The rest of a line that says nothing more, and what follows its end. -/
def lineEnd? (cs : List Char) : Option (List Char) :=
  match skipComment (skipSpaces cs) with
  | [] => some []
  | cs => lineBreak? cs

/-- Blanks, comments and line ends between the items of an array. -/
def skipLines : (fuel : Nat) → List Char → List Char
  | 0, cs => cs
  | fuel + 1, cs =>
    match skipComment (skipSpaces cs) with
    | [] => []
    | cs =>
      match lineBreak? cs with
      | some rest => skipLines fuel rest
      | none => cs

def skipLayout (cs : List Char) : List Char := skipLines cs.length cs

/-! ## Keys -/

def isBareKey (c : Char) : Bool :=
  ('a' ≤ c && c ≤ 'z') || ('A' ≤ c && c ≤ 'Z') || ('0' ≤ c && c ≤ '9') || c = '_' || c = '-'

def simpleKey? (cs : List Char) : Option (String × List Char) :=
  match cs with
  | '"' :: _ | '\'' :: _ => (lineString? cs).map fun r => (String.ofList r.1, r.2)
  | cs =>
    match cs.span isBareKey with
    | ([], _) => none
    | (name, rest) => some (String.ofList name, rest)

/-- The largest number of parts of a dotted key, and of levels of nesting. -/
def maxDepth : Nat := 79

/-- Keys with points between them, up to `parts` of them, and what follows them and the blanks
after them. -/
def key? : (parts : Nat) → List Char → Option (List String × List Char)
  | 0, _ => none
  | parts + 1, cs => do
    let (name, rest) ← simpleKey? (skipSpaces cs)
    match skipSpaces rest with
    | '.' :: rest =>
      let (path, rest) ← key? parts rest
      return (name :: path, rest)
    | rest => return ([name], rest)

/-! ## Values -/

mutual

/-- A value that may be nested `depth` levels deep, and what follows it. -/
def valueFrom : (fuel depth : Nat) → List Char → Option (Toml × List Char)
  | 0, _, _ => none
  | fuel + 1, depth, cs =>
    match cs with
    | '"' :: _ | '\'' :: _ => (string? cs).map fun r => (string (String.ofList r.1), r.2)
    | '[' :: rest =>
      if depth = 0 then none
      else (itemsFrom fuel (depth - 1) rest).map fun r => (array r.1, r.2)
    | '\x7b' :: rest =>
      if depth = 0 then none
      else
        match skipSpaces rest with
        | '\x7d' :: rest => some (table .braces [], rest)
        | rest => (entriesFrom fuel (depth - 1) [] rest).map fun r => (table .braces r.1, r.2)
    | cs => bareValue? cs
termination_by structural fuel => fuel

/-- The items of an array up to its closing bracket. -/
def itemsFrom : (fuel depth : Nat) → List Char → Option (List Toml × List Char)
  | 0, _, _ => none
  | fuel + 1, depth, cs =>
    match skipLayout cs with
    | ']' :: rest => some ([], rest)
    | cs => do
      let (item, rest) ← valueFrom fuel depth cs
      match skipLayout rest with
      | ',' :: rest =>
        let (items, rest) ← itemsFrom fuel depth rest
        return (item :: items, rest)
      | ']' :: rest => return ([item], rest)
      | _ => none
termination_by structural fuel => fuel

/-- The entries of a table up to its closing brace, after those that are there already. -/
def entriesFrom : (fuel depth : Nat) → Entries → List Char → Option (Entries × List Char)
  | 0, _, _, _ => none
  | fuel + 1, depth, entries, cs => do
    let (path, value, rest) ← assignmentFrom fuel depth cs
    let entries ← Toml.assign path value .braces entries
    match skipSpaces rest with
    | ',' :: rest => entriesFrom fuel depth entries rest
    | '\x7d' :: rest => return (entries, rest)
    | _ => none
termination_by structural fuel => fuel

/-- A key, an equals sign and a value. -/
def assignmentFrom : (fuel depth : Nat) → List Char → Option (List String × Toml × List Char)
  | 0, _, _ => none
  | fuel + 1, depth, cs => do
    match ← key? maxDepth cs with
    | (path, '=' :: rest) =>
      let (value, rest) ← valueFrom fuel depth (skipSpaces rest)
      return (path, value, rest)
    | _ => none
termination_by structural fuel => fuel

end

/-! ## Statements -/

/-- The statement at the start of a line, and what follows it on the line. -/
def statement? (cs : List Char) : Option (Statement × List Char) :=
  match cs with
  | '[' :: '[' :: rest => do
    match ← key? maxDepth rest with
    | (path, ']' :: ']' :: rest) => return (.arrayHeader path, rest)
    | _ => none
  | '[' :: rest => do
    match ← key? maxDepth rest with
    | (path, ']' :: rest) => return (.header path, rest)
    | _ => none
  | cs => do
    let (path, value, rest) ← assignmentFrom (2 * cs.length + 2) maxDepth cs
    return (.assign path value, rest)

/-- All statements of a text. Each line has an end of its own, so `fuel` need not exceed the
length. -/
def statementsFrom : (fuel : Nat) → List Char → Option (List Statement)
  | _, [] => some []
  | 0, _ :: _ => none
  | fuel + 1, c :: rest =>
    match lineEnd? (c :: rest) with
    | some rest => statementsFrom fuel rest
    | none => do
      let (s, rest) ← statement? (skipSpaces (c :: rest))
      return s :: (← statementsFrom fuel (← lineEnd? rest))

/-- The statements of a text, which may start with a byte order mark. -/
def statements? (cs : List Char) : Option (List Statement) :=
  let cs := match cs with
    | '\uFEFF' :: rest => rest
    | cs => cs
  statementsFrom cs.length cs

/-! ## Documents -/

/-- A document under construction: its entries, and the path of the header last seen. -/
structure Draft where
  entries : Entries := []
  path : List String := []
  deriving Repr

/-- Apply a change that needs the last key of a path to the table that the path leads to. -/
def atParent (change : String → TableOrigin → Entries → Option Entries) (path : List String)
    (entries : Entries) : Option Entries :=
  match path.getLast? with
  | none => none
  | some key => within false (change key) path.dropLast .header entries

def Draft.add (d : Draft) : Statement → Option Draft
  | .header path => do return { entries := ← atParent openTable path d.entries, path }
  | .arrayHeader path => do return { entries := ← atParent openElement path d.entries, path }
  | .assign path value => do
    return { d with entries := ← within false (Toml.assign path value) d.path .header d.entries }

/-- The entries of the document that a text holds. -/
def ofText? (text : String) : Option Entries := do
  let draft ← (← statements? text.toList).foldlM Draft.add {}
  return draft.entries

end TransactionalHeap.Toml
