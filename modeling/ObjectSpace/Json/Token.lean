import ObjectSpace.Json.Basic

/-!
# Tokens of JSON text

Text is cut into tokens without a look at their order. Strings and numbers stay as they are written;
what they stand for is a question of its own, which is only asked of those that are used.
-/

namespace ObjectSpace
namespace Json

inductive Token where
  | openArray
  | closeArray
  | openObject
  | closeObject
  | comma
  | colon
  | null
  | bool (b : Bool)
  | number (raw : List Char)
  | string (raw : List Char)
  deriving DecidableEq

def Token.text : Token → List Char
  | openArray => ['[']
  | closeArray => [']']
  | openObject => ['\x7b']
  | closeObject => ['\x7d']
  | comma => [',']
  | colon => [':']
  | null => ['n', 'u', 'l', 'l']
  | bool true => ['t', 'r', 'u', 'e']
  | bool false => ['f', 'a', 'l', 's', 'e']
  | number raw => raw
  | string raw => '"' :: raw ++ ['"']

def isSpace (c : Char) : Bool := c == ' ' || c == '\t' || c == '\n' || c == '\r'

/-! ## Numbers -/

def isNumberChar (c : Char) : Bool :=
  c.isDigit || c == '-' || c == '+' || c == '.' || c == 'e' || c == 'E'

/-- The rest behind a run of at least one digit. -/
def afterDigits? (cs : List Char) : Option (List Char) :=
  if (cs.takeWhile Char.isDigit).isEmpty then none else some (cs.dropWhile Char.isDigit)

/-- No zero stands in front of another digit. -/
def afterWhole? : List Char → Option (List Char)
  | '0' :: rest => some rest
  | cs => afterDigits? cs

def afterFraction? : List Char → Option (List Char)
  | '.' :: rest => afterDigits? rest
  | cs => some cs

def afterExponent? : List Char → Option (List Char)
  | [] => some []
  | c :: rest =>
    if c == 'e' || c == 'E' then
      match rest with
      | '+' :: rest | '-' :: rest => afterDigits? rest
      | _ => afterDigits? rest
    else some (c :: rest)

def isNumber (cs : List Char) : Bool :=
  let unsigned := match cs with
    | '-' :: rest => rest
    | _ => cs
  (afterWhole? unsigned >>= afterFraction? >>= afterExponent?) == some []

/-! ## Strings -/

/-- What stands in front of the closing quote, and what follows it. -/
def splitString : List Char → Option (List Char × List Char)
  | [] => none
  | '"' :: rest => some ([], rest)
  | '\\' :: c :: rest => (splitString rest).map fun (raw, rest) => ('\\' :: c :: raw, rest)
  | c :: rest => (splitString rest).map fun (raw, rest) => (c :: raw, rest)

/-- Characters that stand behind a backslash, and what they mean together. -/
def simpleEscapes : List (Char × Char) :=
  [('"', '"'), ('\\', '\\'), ('/', '/'), ('b', '\x08'), ('f', '\x0c'), ('n', '\n'), ('r', '\r'),
   ('t', '\t')]

def hexDigit? (c : Char) : Option Nat :=
  if c.isDigit then some (c.toNat - 48)
  else if 'a' ≤ c && c ≤ 'f' then some (c.toNat - 87)
  else if 'A' ≤ c && c ≤ 'F' then some (c.toNat - 55)
  else none

def unit? (a b c d : Char) : Option Nat := do
  some (((← hexDigit? a) * 16 + (← hexDigit? b)) * 256 + (← hexDigit? c) * 16 + (← hexDigit? d))

/-- Every backslash begins an escape and no control character stands for itself. -/
def isEscaped : List Char → Bool
  | [] => true
  | '\\' :: 'u' :: a :: b :: c :: d :: rest => (unit? a b c d).isSome && isEscaped rest
  | '\\' :: c :: rest => (simpleEscapes.lookup c).isSome && isEscaped rest
  | c :: rest => c != '\\' && 32 ≤ c.toNat && isEscaped rest

/-- The text of a string. A character beyond `U+FFFF` is escaped as two units, high before low;
half of such a pair is no character. -/
def unescape : List Char → Option (List Char)
  | [] => some []
  | '\\' :: 'u' :: a :: b :: c :: d :: rest => do
    let high ← unit? a b c d
    if 0xD800 ≤ high && high < 0xDC00 then
      match rest with
      | '\\' :: 'u' :: a' :: b' :: c' :: d' :: rest =>
        let low ← unit? a' b' c' d'
        if 0xDC00 ≤ low && low < 0xE000 then
          (unescape rest).map (Char.ofNat (0x10000 + (high - 0xD800) * 0x400 + (low - 0xDC00)) :: ·)
        else none
      | _ => none
    else if 0xDC00 ≤ high && high < 0xE000 then none
    else (unescape rest).map (Char.ofNat high :: ·)
  | '\\' :: c :: rest => do
    let meaning ← simpleEscapes.lookup c
    (unescape rest).map (meaning :: ·)
  | c :: rest => if c == '\\' || c.toNat < 32 then none else (unescape rest).map (c :: ·)

/-- Only what must be escaped is: the quote, the backslash and control characters. -/
def escapeChar (c : Char) : List Char :=
  if c = '"' then ['\\', '"']
  else if c = '\\' then ['\\', '\\']
  else if c = '\x08' then ['\\', 'b']
  else if c = '\x0c' then ['\\', 'f']
  else if c = '\n' then ['\\', 'n']
  else if c = '\r' then ['\\', 'r']
  else if c = '\t' then ['\\', 't']
  else if c.toNat < 32 then
    ['\\', 'u', '0', '0', Nat.digitChar (c.toNat / 16), Nat.digitChar (c.toNat % 16)]
  else [c]

def escape (s : String) : List Char := s.toList.flatMap escapeChar

/-! ## Cutting -/

/-- The token that text begins with, and the rest. -/
def nextToken? : List Char → Option (Token × List Char)
  | '[' :: rest => some (.openArray, rest)
  | ']' :: rest => some (.closeArray, rest)
  | '\x7b' :: rest => some (.openObject, rest)
  | '\x7d' :: rest => some (.closeObject, rest)
  | ',' :: rest => some (.comma, rest)
  | ':' :: rest => some (.colon, rest)
  | 'n' :: 'u' :: 'l' :: 'l' :: rest => some (.null, rest)
  | 't' :: 'r' :: 'u' :: 'e' :: rest => some (.bool true, rest)
  | 'f' :: 'a' :: 'l' :: 's' :: 'e' :: rest => some (.bool false, rest)
  | '"' :: rest => do
    let (raw, rest) ← splitString rest
    if isEscaped raw then some (.string raw, rest) else none
  | cs =>
    let run := cs.takeWhile isNumberChar
    if isNumber run then some (.number run, cs.dropWhile isNumberChar) else none

theorem splitString_eq {cs raw rest : List Char} (h : splitString cs = some (raw, rest)) :
    cs = raw ++ '"' :: rest := by
  fun_induction splitString cs generalizing raw rest with
  | case1 => simp at h
  | case2 => simp_all
  | case3 c tail ih =>
    obtain ⟨⟨r, t⟩, hr, he⟩ := Option.map_eq_some_iff.1 h
    obtain ⟨rfl, rfl⟩ := Prod.mk.inj he
    simp [ih hr]
  | case4 c tail _ _ ih =>
    obtain ⟨⟨r, t⟩, hr, he⟩ := Option.map_eq_some_iff.1 h
    obtain ⟨rfl, rfl⟩ := Prod.mk.inj he
    simp [ih hr]

theorem takeWhile_ne_nil_of_isNumber {cs : List Char} (h : isNumber cs) : cs ≠ [] := by
  rintro rfl
  simp [isNumber, afterWhole?, afterDigits?] at h

/-- A token is never empty. -/
theorem length_lt_of_nextToken? {cs rest : List Char} {t : Token}
    (h : nextToken? cs = some (t, rest)) : rest.length < cs.length := by
  unfold nextToken? at h
  split at h
  case h_10 tail =>
    simp only [Option.bind_eq_bind, Option.bind_eq_some_iff] at h
    obtain ⟨⟨raw, tail'⟩, hs, h⟩ := h
    have := congrArg List.length (splitString_eq hs)
    simp only at h
    split at h
    · simp only [Option.some.injEq, Prod.mk.injEq] at h
      obtain ⟨_, rfl⟩ := h
      simp at this ⊢
      omega
    · simp at h
  case h_11 =>
    simp only at h
    split at h
    case isTrue hn =>
      simp only [Option.some.injEq, Prod.mk.injEq] at h
      obtain ⟨_, rfl⟩ := h
      have hne := takeWhile_ne_nil_of_isNumber hn
      have := congrArg List.length (List.takeWhile_append_dropWhile (p := isNumberChar) (l := cs))
      have := List.length_pos_iff.2 hne
      rw [List.length_append] at *
      omega
    · simp at h
  all_goals
    simp only [Option.some.injEq, Prod.mk.injEq] at h
    obtain ⟨_, rfl⟩ := h
    simp +arith

def tokens? (cs : List Char) : Option (List Token) :=
  match cs with
  | [] => some []
  | c :: rest =>
    if isSpace c then tokens? rest
    else
      match _h : nextToken? (c :: rest) with
      | none => none
      | some (t, rest') => (tokens? rest').map (t :: ·)
  termination_by cs.length
  decreasing_by
    · simp
    · exact length_lt_of_nextToken? _h

end Json
end ObjectSpace
