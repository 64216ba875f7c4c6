/-!
# Powers and 64-bit ranges

The powers that scale numbers, and the ends of the ranges of 64-bit integers.
-/

namespace DependencyAudit

/-- Two to the power `k`. -/
def twoPow (k : Nat) : Nat := Nat.pow 2 k

/-- Ten to the power `k`. -/
def tenPow (k : Nat) : Nat := Nat.pow 10 k

/-- The least number beyond the signed 64-bit integers. -/
def signedLimit : Nat := twoPow 63

/-- The least number beyond the unsigned 64-bit integers. -/
def unsignedLimit : Nat := twoPow 64

theorem twoPow_pos (k : Nat) : 0 < twoPow k := Nat.pow_pos (by decide)

theorem tenPow_pos (k : Nat) : 0 < tenPow k := Nat.pow_pos (by decide)

end DependencyAudit
