/-!
# Blank characters

The characters that separate pieces of source text: those with the Unicode property `White_Space`.
The table lists them as ten closed ranges of code points, twenty-five characters in all.
-/

namespace ExprLang

/-- The ranges of code points with the property `White_Space`, ends included. -/
def blankRanges : List (Nat × Nat) :=
  [(0x0009, 0x000D), (0x0020, 0x0020), (0x0085, 0x0085), (0x00A0, 0x00A0), (0x1680, 0x1680),
   (0x2000, 0x200A), (0x2028, 0x2029), (0x202F, 0x202F), (0x205F, 0x205F), (0x3000, 0x3000)]

/-- Whether a character separates pieces of source text. -/
def isBlank (c : Char) : Bool :=
  blankRanges.any fun range => range.1 ≤ c.toNat && c.toNat ≤ range.2

/-- The text without the blanks around it. -/
def trimBlanks (text : String) : String :=
  String.ofList (((text.toList.dropWhile isBlank).reverse.dropWhile isBlank).reverse)

end ExprLang
