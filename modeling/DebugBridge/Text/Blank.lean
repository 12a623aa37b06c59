/-!
# White space

The characters with the property White_Space, and trimming them off both ends of a text.
-/

namespace DebugBridge.Text

/-- Closed ranges of the code points with the property White_Space, ascending and apart. -/
def blankRanges : Array (Nat × Nat) :=
  #[(0x09, 0x0D), (0x20, 0x20), (0x85, 0x85), (0xA0, 0xA0), (0x1680, 0x1680), (0x2000, 0x200A),
    (0x2028, 0x2029), (0x202F, 0x202F), (0x205F, 0x205F), (0x3000, 0x3000)]

/-- Whether a code point lies in one of the ranges. -/
def inRanges (ranges : Array (Nat × Nat)) (n : Nat) : Bool :=
  ranges.any fun r => r.1 ≤ n && n ≤ r.2

/-- Whether a character is white space. -/
def isBlank (c : Char) : Bool :=
  inRanges blankRanges c.toNat

/-- The characters of a text without the white space at its end. -/
def trimBlankEnd (cs : List Char) : List Char :=
  (cs.reverse.dropWhile isBlank).reverse

/-- The characters of a text without the white space at its two ends. -/
def trimBlank (cs : List Char) : List Char :=
  trimBlankEnd (cs.dropWhile isBlank)

end DebugBridge.Text
