/-! Powers and sums of natural numbers. Opening this namespace settles them on the core
operations, so that a definition stays the same whatever else is imported. -/
namespace Formulas.Natural

scoped instance (priority := high) corePow : Pow Nat Nat := instPowNat

scoped instance (priority := high) coreZero : Zero Nat := Zero.ofOfNat0

end Formulas.Natural
