set_option autoImplicit false

/-!
# Tables of code points

A class of characters is a list of closed intervals of code points.
-/
namespace StackScript.Text

structure CodeRange where
  first : Nat
  last : Nat

def CodeRange.holds (range : CodeRange) (c : Char) : Bool :=
  range.first ≤ c.toNat && c.toNat ≤ range.last

def inRanges (ranges : List CodeRange) (c : Char) : Bool :=
  ranges.any (·.holds c)

end StackScript.Text
