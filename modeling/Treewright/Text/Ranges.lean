set_option autoImplicit false

namespace Treewright.Text

/-- A character is in the class when an odd number of boundaries lie at or before it. -/
def inClass (bounds : List Nat) (c : Char) : Bool :=
  (bounds.takeWhile (· ≤ c.toNat)).length % 2 = 1

@[simp] theorem inClass_nil (c : Char) : inClass [] c = false := rfl

theorem inClass_eq_false_of_lt {b : Nat} {bs : List Nat} {c : Char} (h : c.toNat < b) :
    inClass (b :: bs) c = false := by
  simp [inClass, Nat.not_le.mpr h]

end Treewright.Text
