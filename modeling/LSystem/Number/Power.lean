/-!
# Powers

Powers of the two bases that numbers are written in.
-/

namespace LSystem.Number

/-- Two to the power `n`, the first number that `n` bits do not hold. -/
abbrev twoTo (n : Nat) : Nat := Nat.pow 2 n

/-- Ten to the power `n`, the number of steps of `n` decimal places in one unit. -/
abbrev tenTo (n : Nat) : Nat := Nat.pow 10 n

end LSystem.Number
