set_option autoImplicit false

/-!
# Geometry: scalars

Lengths and positions are numbers of some type `K` that has the four operations, a
few constants, and a choice of the larger of two numbers.  Geometry is written for
any such type: with floating point numbers it computes, and with an exact ordered
field the same definitions can be reasoned about.

No law is asked of a scalar type, because floating point numbers obey few.  So a sum
of several terms is always taken in the order in which it is written.
-/

namespace MathLine.Geometry

/-- The arithmetic that geometry is done with. -/
class Scalar (K : Type) extends Add K, Sub K, Mul K, Div K, Neg K where
  zero : K
  one : K
  two : K
  /-- the larger of two numbers -/
  larger : K → K → K

/-- Floating point numbers.  A number that is not comparable is ignored when the
larger of two is taken. -/
instance : Scalar Float where
  zero := 0
  one := 1
  two := 2
  larger a b := if a.isNaN then b else if b.isNaN then a else if a < b then b else a

end MathLine.Geometry
