/-! The characters with the Unicode property `White_Space`, and the removal of blanks at both ends
of a text. -/
namespace Workplan.Text
set_option autoImplicit false

/-- The code point ranges of `White_Space`, first and last code point included. -/
def blankRanges : List (Nat × Nat) :=
  [(0x09, 0x0D), (0x20, 0x20), (0x85, 0x85), (0xA0, 0xA0), (0x1680, 0x1680), (0x2000, 0x200A),
   (0x2028, 0x2029), (0x202F, 0x202F), (0x205F, 0x205F), (0x3000, 0x3000)]

/-- True of white space in the sense of Unicode. -/
def isBlank (c : Char) : Bool :=
  blankRanges.any fun r => r.1 ≤ c.toNat && c.toNat ≤ r.2

/-- The characters left after the blanks at the end are dropped. -/
def trimRight (cs : List Char) : List Char := (cs.reverse.dropWhile isBlank).reverse

def trimChars (cs : List Char) : List Char := trimRight (cs.dropWhile isBlank)

def trim (s : String) : String := String.ofList (trimChars s.toList)

end Workplan.Text
