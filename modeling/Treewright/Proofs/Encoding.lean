import Treewright.Text.Utf8
set_option autoImplicit false

namespace Treewright.Text

open String (utf8EncodeChar)

section Lengths

variable {n : Nat}

end Lengths

/-- The bytes are those that the character still misses, and they make it the one of the number. -/
inductive Unfinished.Completes : Unfinished → List UInt8 → Nat → Prop where
  | last {u : Unfinished} {b : UInt8} {code : Nat} (bounds : u.low ≤ b.toNat ∧ b.toNat ≤ u.high)
      (ends : (u.extend b.toNat).missing = 0) (whole : (u.extend b.toNat).code = code) :
      u.Completes [b] code
  | more {u : Unfinished} {b : UInt8} {bs : List UInt8} {code : Nat}
      (bounds : u.low ≤ b.toNat ∧ b.toNat ≤ u.high) (goesOn : (u.extend b.toNat).missing ≠ 0)
      (rest : (u.extend b.toNat).Completes bs code) : u.Completes (b :: bs) code

namespace Unfinished

variable {u : Unfinished} {bs : List UInt8} {code : Nat}

end Unfinished

end Treewright.Text
