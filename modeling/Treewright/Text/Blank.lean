import Treewright.Text.Ranges
set_option autoImplicit false

namespace Treewright.Text

/-- Boundaries of the white space class: the Unicode spaces, tabs and line ends, with the four
information separators; the zero-width space is not in it. -/
def blankBounds : List Nat :=
  [
    9, 0xe, 0x1c, 0x21, 0x85, 0x86, 0xa0, 0xa1, 0x1680, 0x1681, 0x2000, 0x200b, 0x2028, 0x202a,
    0x202f, 0x2030, 0x205f, 0x2060, 0x3000, 0x3001
  ]

def isBlank (c : Char) : Bool := inClass blankBounds c

def strip (cs : List Char) : List Char :=
  (((cs.dropWhile isBlank).reverse).dropWhile isBlank).reverse

def stripped (s : String) : String := String.ofList (strip s.toList)

@[simp] theorem strip_nil : strip [] = [] := rfl

end Treewright.Text
