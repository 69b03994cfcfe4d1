import Formulas.Operation
/-! Arithmetic that gives the ten operations their values, over any kind of number. -/
namespace Formulas

/-- The arithmetic that the operations are made of. The root is the nonnegative root of
the magnitude, of a positive degree. -/
class Arithmetic (α : Type) where
  ofNat : Nat → α
  add : α → α → α
  sub : α → α → α
  mul : α → α → α
  div : α → α → α
  neg : α → α
  root : Nat → α → α

namespace Arithmetic

variable {α : Type} [Arithmetic α]

/-- One divided by a number. -/
def reciprocal (a : α) : α :=
  div (ofNat 1) a

/-- The sum from left to right. -/
def sum : List α → α
  | [] => ofNat 0
  | a :: rest => rest.foldl add a

/-- The product from left to right. -/
def product : List α → α
  | [] => ofNat 1
  | a :: rest => rest.foldl mul a

/-- The value of an operation on the values of its operands. An operation with a number
of operands that its arity does not admit is given the value zero. -/
def combine : Operation → List α → α
  | .add, [a, b] => add a b
  | .sub, [a, b] => sub a b
  | .mul, [a, b] => mul a b
  | .div, [a, b] => div a b
  | .hypot, [a, b] => add (mul a a) (mul b b)
  | .hmean, [a, b] => div (ofNat 2) (add (reciprocal a) (reciprocal b))
  | .negate, [a] => neg a
  | .arithMean, a :: rest => div (sum (a :: rest)) (ofNat (rest.length + 1))
  | .geomMean, a :: rest => root (rest.length + 1) (product (a :: rest))
  | .harmMean, a :: rest =>
    div (ofNat (rest.length + 1)) (sum ((a :: rest).map reciprocal))
  | _, _ => ofNat 0

end Arithmetic

end Formulas
