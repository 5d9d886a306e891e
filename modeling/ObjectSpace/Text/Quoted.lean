import ObjectSpace.Text.Printable

/-!
# Quoted text

Error texts show a string or a character between quotes, with everything escaped that would not
show: the quote itself, the backslash, and characters without a visible form of their own, which
appear as their hexadecimal number between braces.
-/

namespace ObjectSpace
namespace Text

/-- Lower case, without leading zeros. -/
def hexNumber (n : Nat) : String := String.ofList (Nat.toDigits 16 n)

/-- One character of text that stands between two of `mark`. -/
def escape (mark : Char) (c : Char) : String :=
  if c = '\x00' then "\\0"
  else if c = '\t' then "\\t"
  else if c = '\n' then "\\n"
  else if c = '\r' then "\\r"
  else if c = '\\' || c = mark then String.ofList ['\\', c]
  else if isShown c then String.singleton c
  else "\\u\x7b" ++ hexNumber c.toNat ++ "\x7d"

def quoted (s : String) : String :=
  "\"" ++ String.join (s.toList.map (escape '"')) ++ "\""

def quotedChar (c : Char) : String := "'" ++ escape '\'' c ++ "'"

/-- Strings as the members of a bracketed list. -/
def quotedList (ss : List String) : String :=
  "[" ++ ", ".intercalate (ss.map quoted) ++ "]"

end Text
end ObjectSpace
