/-! # Blanks

The characters that separate words: spaces, tabs, line and paragraph
separators. Trimming removes them from the ends of a text.
-/

namespace Sequitur.Text

/-- Whether a code point lies in one of the closed ranges. -/
def inRanges (ranges : List (Nat × Nat)) (code : Nat) : Bool :=
  ranges.any fun range => range.1 ≤ code && code ≤ range.2

/-- The closed ranges of blank code points. -/
def blankRanges : List (Nat × Nat) :=
  [(0x09, 0x0d), (0x1c, 0x20), (0x85, 0x85), (0xa0, 0xa0), (0x1680, 0x1680), (0x2000, 0x200a),
   (0x2028, 0x2029), (0x202f, 0x202f), (0x205f, 0x205f), (0x3000, 0x3000)]

/-- A character that separates words. -/
def isBlank (c : Char) : Bool :=
  inRanges blankRanges c.toNat

/-- Everything from the first character that is not blank. -/
def trimLeft (text : String) : String :=
  String.ofList (text.toList.dropWhile isBlank)

/-- The longest initial part whose last character does not satisfy the test. -/
def dropEndWhile (test : Char → Bool) (chars : List Char) : List Char :=
  (chars.reverse.dropWhile test).reverse

/-- A text without the blanks at its two ends. -/
def trim (text : String) : String :=
  String.ofList (dropEndWhile isBlank (text.toList.dropWhile isBlank))

end Sequitur.Text
