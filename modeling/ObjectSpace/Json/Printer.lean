import ObjectSpace.Json.Token

/-!
# Printing JSON

A document is printed without white space, as the texts of its tokens.
-/

namespace ObjectSpace
namespace Json

def numberText (x : Binary64) : List Char := (x.text numberLayout).toList

mutual

/-- Numbers that are not finite have no text; null stands for them. -/
def tokens : Json → List Token
  | .null => [.null]
  | .bool b => [.bool b]
  | .int n => [.number (Integer.text n).toList]
  | .float x => if x.isFinite then [.number (numberText x)] else [.null]
  | .str s => [.string (escape s)]
  | .arr items => .openArray :: (itemTokens items ++ [.closeArray])
  | .obj members => .openObject :: (memberTokens members ++ [.closeObject])

def itemTokens : List Json → List Token
  | [] => []
  | [j] => tokens j
  | j :: js => tokens j ++ .comma :: itemTokens js

def memberTokens : List (String × Json) → List Token
  | [] => []
  | [(k, j)] => .string (escape k) :: .colon :: tokens j
  | (k, j) :: ms => .string (escape k) :: .colon :: (tokens j ++ .comma :: memberTokens ms)

end

def text (j : Json) : String := String.ofList ((tokens j).flatMap Token.text)

end Json
end ObjectSpace
