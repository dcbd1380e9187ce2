import Mathlib.Data.BitVec

/-! Single precision numbers as the 32-bit patterns a program stores and copies. What a program computes
    with them is a parameter: the operations of a `Binary32` are those of the machine, and nothing is
    assumed about them. -/

abbrev Binary32.Single := BitVec 32

open Binary32 in
/-- Single precision arithmetic on bit patterns. -/
structure Binary32 where
  ofInt : Int → Single
  add : Single → Single → Single
  sub : Single → Single → Single
  mul : Single → Single → Single
  div : Single → Single → Single
  lt : Single → Single → Bool
  le : Single → Single → Bool

open Binary32 in
/-- Arithmetic that also converts to unsigned whole numbers. -/
structure Fpu extends Binary32 where
  toUInt32 : Single → BitVec 32

namespace Binary32

def zero : Single := 0#32

def one : Single := 0x3F800000#32

end Binary32
