import ObjectSpace.Toml.Outline

/-!
# Settings files

A settings file is read line by line: headers that choose a table, and keys with their values. The
number of steps is bounded by the length of the text, since every step takes a character at least.
-/

namespace ObjectSpace
namespace Toml

def skipBlanks (cs : List Char) : List Char := cs.dropWhile fun c => c == ' ' || c == '\t'

/-- Behind a comment, at the end of its line. -/
def commentEnd : List Char → Option (List Char)
  | [] => some []
  | '\n' :: rest => some ('\n' :: rest)
  | '\r' :: '\n' :: rest => some ('\n' :: rest)
  | c :: rest => if isControl c then none else commentEnd rest

def skipComment (cs : List Char) : Option (List Char) :=
  match skipBlanks cs with
  | '#' :: rest => commentEnd rest
  | rest => some rest

/-- The next line, if nothing more than a comment stands in this one. -/
def lineEnd (cs : List Char) : Option (List Char) := do
  match ← skipComment cs with
  | [] => some []
  | '\n' :: rest | '\r' :: '\n' :: rest => some rest
  | _ => none

/-- Blanks, comments and ends of lines. -/
def skipLines : Nat → List Char → Option (List Char)
  | 0, _ => none
  | n + 1, cs => do
    match ← skipComment cs with
    | '\n' :: rest | '\r' :: '\n' :: rest => skipLines n rest
    | rest => some rest

/-! ## Keys -/

def isBare (c : Char) : Bool := c.isAlphanum || c == '_' || c == '-'

def name (cs : List Char) : Option (String × List Char) := do
  match cs with
  | '"' :: rest => (basicString rest).map fun (s, rest) => (String.ofList s, rest)
  | '\'' :: rest => (literalString rest).map fun (s, rest) => (String.ofList s, rest)
  | _ =>
    let bare := cs.takeWhile isBare
    if bare.isEmpty then none else some (String.ofList bare, cs.dropWhile isBare)

/-- Names with dots between them. -/
def keyPath : Nat → List Char → Option (KeyPath × List Char)
  | 0, _ => none
  | n + 1, cs => do
    let (first, rest) ← name (skipBlanks cs)
    match skipBlanks rest with
    | '.' :: rest =>
      let (more, rest) ← keyPath n rest
      some (first :: more, rest)
    | rest => some ([first], rest)

/-- A key and the sign that its value follows. -/
def key (n : Nat) (cs : List Char) : Option (KeyPath × List Char) := do
  match ← keyPath n cs with
  | (path, '=' :: rest) => some (path, skipBlanks rest)
  | _ => none

/-! ## Values -/

mutual

def value : Nat → List Char → Option (Item × List Char)
  | 0, _ => none
  | n + 1, cs =>
    match cs with
    | '"' :: '"' :: '"' :: rest => (multilineEnd '"' true rest).map (Item.other, ·)
    | '\'' :: '\'' :: '\'' :: rest => (multilineEnd '\'' false rest).map (Item.other, ·)
    | '"' :: rest => (basicString rest).map fun (_, rest) => (.other, rest)
    | '\'' :: rest => (literalString rest).map fun (_, rest) => (.other, rest)
    | '[' :: rest => (elements n rest).map (Item.other, ·)
    | '\x7b' :: rest =>
      match skipBlanks rest with
      | '\x7d' :: rest => some (.other, rest)
      | rest => (members n .empty rest).map (Item.other, ·)
    | _ =>
      let (w, rest) := word cs
      (item? w).map (·, rest)

/-- The elements of an array, which may spread over lines. -/
def elements : Nat → List Char → Option (List Char)
  | 0, _ => none
  | n + 1, cs => do
    match ← skipLines n cs with
    | ']' :: rest => some rest
    | cs =>
      let (_, rest) ← value n cs
      match ← skipLines n rest with
      | ',' :: rest => elements n rest
      | ']' :: rest => some rest
      | _ => none

/-- The members of a table in one line. -/
def members : Nat → Outline → List Char → Option (List Char)
  | 0, _, _ => none
  | n + 1, o, cs => do
    let (path, rest) ← key n cs
    let (i, rest) ← value n rest
    let o ← o.assign [] path i
    match skipBlanks rest with
    | ',' :: rest => members n o rest
    | '\x7d' :: rest => some rest
    | _ => none

end

/-! ## Lines -/

/-- The rest of the file in the table at `root`. -/
def lines : Nat → KeyPath → Outline → List Char → Option Outline
  | 0, _, _, _ => none
  | n + 1, root, o, cs =>
    match skipBlanks cs with
    | [] => some o
    | '[' :: '[' :: rest => do
      match ← keyPath n rest with
      | (path, ']' :: ']' :: rest) => lines n path (← o.repeatTable path) (← lineEnd rest)
      | _ => none
    | '[' :: rest => do
      match ← keyPath n rest with
      | (path, ']' :: rest) => lines n path (← o.declare path) (← lineEnd rest)
      | _ => none
    | c :: rest => do
      if c == '\n' || c == '\r' || c == '#' then lines n root o (← lineEnd (c :: rest))
      else
        let (path, rest) ← key n (c :: rest)
        let (i, rest) ← value n rest
        lines n root (← o.assign root path i) (← lineEnd rest)

/-- A mark of the byte order may stand in front. -/
def withoutMark : List Char → List Char
  | '\ufeff' :: rest => rest
  | cs => cs

def outline? (text : String) : Option Outline :=
  let cs := withoutMark text.toList
  lines (cs.length + 2) [] .empty cs

end Toml
end ObjectSpace
