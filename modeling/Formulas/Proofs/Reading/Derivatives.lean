import Formulas.Proofs.Binary64.Rounding
import Formulas.Proofs.Formula.Closure
import Formulas.Proofs.Formula.Constants
import Formulas.Proofs.Reading.RoundTrip

/-! Derivatives of every order are formulas like any other. They are well formed, their
constants are finite, no coordinate is new in them, and their texts are read back as long as
the numbers of operands can be written. -/
namespace Formulas

theorem Numeral.isWritable_of_le {n : Nat} (hSmall : n ≤ 2) : isWritable n = true := by
  have hTen : 10 ^ 1 ≤ 10 ^ digitLimit := Nat.pow_le_pow_right (by decide) (by decide)
  exact isWritable_iff.mpr (by omega)

theorem Formula.isReadable_natural (n : Nat) :
    isReadable (.constant (.integer n)) = Numeral.isWritable n := by
  rw [isReadable, everywhere_constant, Constant.isReadable, Int.natAbs_natCast]

theorem Operation.count_le {op : Operation} {count : Nat} (hArity : op.arity = .exactly count) :
    count ≤ 2 := by
  cases op <;> cases hArity <;> decide

namespace Formula

/-- The number of operands of every operation can be written. -/
def isCountable : Formula → Bool :=
  everywhere (fun _ => true) fun _ count => Numeral.isWritable count

/-- The derivatives of all orders by names that are taken one after the other. -/
def successiveDerivatives : List String → Formula → Except Failure (List Formula)
  | [], _ => .ok []
  | name :: names, f => do
    let slope ← f.derivative name
    let later ← slope.successiveDerivatives names
    .ok (slope :: later)

/-- One divided by a number of operands is finite. -/
theorem keptByRules_isFinite :
    KeptByRules fun f => ∀ value ∈ f.constants, value.isFinite = true := by
  simp only [← everywhere_iff_constants]
  exact keptByRules_everywhere (fun _ _ => rfl) (fun _ _ _ => rfl) fun _ count _ hPos _ =>
    ⟨rfl, Binary64.isFinite_round_of_le false (Nat.ne_of_gt hPos) hPos⟩

theorem keptByRules_isReadable :
    KeptByRules fun f => f.isReadable = true ∧ f.isCountable = true where
  integer n hSmall := ⟨(isReadable_natural n).trans (Numeral.isWritable_of_le hSmall), rfl⟩
  operand hBoth f hf :=
    ⟨(everywhere_operation.mp hBoth.1).2 f hf, (everywhere_operation.mp hBoth.2).2 f hf⟩
  operation hArity hOperands :=
    ⟨everywhere_operation.mpr ⟨rfl, fun f hf => (hOperands f hf).1⟩, everywhere_operation.mpr
      ⟨Numeral.isWritable_of_le (Operation.count_le hArity), fun f hf => (hOperands f hf).2⟩⟩
  count _ hNonempty hBoth :=
    have hPos := List.length_pos_iff.mpr hNonempty
    ⟨⟨(isReadable_natural _).trans (everywhere_operation.mp hBoth.2).1, rfl⟩,
      Binary64.isFinite_round_of_le false (Nat.ne_of_gt hPos) hPos, rfl⟩

theorem keptByRules_coordinates (allowed : List Coordinate) :
    KeptByRules fun f => ∀ which ∈ f.coordinates, which ∈ allowed := by
  simp only [mem_coordinates_iff]
  constructor
  · intro n _ which hLeaf
    rw [leaves_of_isOperation_eq_false rfl] at hLeaf
    simp at hLeaf
  · intro op operands hAll f hf which hLeaf
    rw [leaves_operation] at hAll
    exact hAll which (List.mem_flatMap_of_mem hf hLeaf)
  · intro op operands _ hOperands which hLeaf
    rw [leaves_operation] at hLeaf
    obtain ⟨f, hf, hLeaf⟩ := List.mem_flatMap.mp hLeaf
    exact hOperands f hf which hLeaf
  · intro op operands _ _ _
    rw [leaves_of_isOperation_eq_false rfl, leaves_of_isOperation_eq_false rfl]
    simp

end Formula

/-- All derivatives of a well-formed formula exist and have a property that is kept. -/
theorem KeptByRules.successiveDerivatives {P : Formula → Prop} (hKept : KeptByRules P)
    (names : List String) {f : Formula} (hWellFormed : f.isWellFormed = true) (hf : P f) :
    ∃ slopes, f.successiveDerivatives names = .ok slopes ∧ slopes.length = names.length ∧
      ∀ g ∈ slopes, g.isWellFormed = true ∧ P g := by
  induction names generalizing f with
  | nil => exact ⟨[], rfl, rfl, by simp⟩
  | cons name names ih =>
      obtain ⟨slope, hSlope, hBoth⟩ := (keptByRules_isWellFormed.and hKept).exists_derivative name
        hWellFormed ⟨hWellFormed, hf⟩
      obtain ⟨later, hLater, hLength, hAll⟩ := ih hBoth.1 hBoth.2
      refine ⟨slope :: later, ?_, congrArg (· + 1) hLength, List.forall_mem_cons.mpr ⟨hBoth, hAll⟩⟩
      rw [Formula.successiveDerivatives, hSlope, Result.ok_bind, hLater, Result.ok_bind]

namespace Reading

/-- Derivatives by any names one after the other always exist, are well formed, have finite
constants and no new coordinates. If the number of operands of every operation has no more
digits than an integer constant may have, all of them are read back from their texts. -/
theorem successiveDerivatives_closed {f : Formula} (hWellFormed : f.isWellFormed = true)
    (hReadable : f.isReadable = true) (names : List String) :
    ∃ slopes, f.successiveDerivatives names = .ok slopes ∧ slopes.length = names.length ∧
      ∀ g ∈ slopes, g.isWellFormed = true ∧ (∀ value ∈ g.constants, value.isFinite = true) ∧
        (∀ which ∈ g.coordinates, which ∈ f.coordinates) ∧
        (f.isCountable = true → g.isReadable = true ∧ ∀ form, form ≠ Notation.plain →
          ∃ h, (readText ⟨form, true⟩ (g.render form)).root? = .ok (some h) ∧
            g.agrees h = true) := by
  have hFinite : ∀ value ∈ f.constants, value.isFinite = true := by
    intro value hValue
    have hLiteral := Formula.everywhere_iff_constants.mp hReadable value hValue
    cases value with
    | integer n => rfl
    | real x => exact hLiteral
  obtain ⟨slopes, hSlopes, hLength, hAll⟩ :=
    (Formula.keptByRules_isFinite.and (Formula.keptByRules_coordinates f.coordinates)
      ).successiveDerivatives names hWellFormed ⟨hFinite, fun _ hWhich => hWhich⟩
  refine ⟨slopes, hSlopes, hLength, fun g hg => ?_⟩
  obtain ⟨hSound, hConstants, hCoordinates⟩ := hAll g hg
  refine ⟨hSound, hConstants, hCoordinates, fun hCountable => ?_⟩
  obtain ⟨slopes', hSlopes', -, hTexts⟩ :=
    Formula.keptByRules_isReadable.successiveDerivatives names hWellFormed ⟨hReadable, hCountable⟩
  obtain rfl : slopes = slopes' := Except.ok.inj (hSlopes.symm.trans hSlopes')
  have hText := (hTexts g hg).2.1
  exact ⟨hText, fun form hForm => ⟨g.normal, root?_readText_render hForm true hSound hText,
    Formula.agrees_iff.mpr (Formula.normal_normal g).symm⟩⟩

/-- A geometric mean next to a harmonic one, by a coordinate and by a name that does not occur. -/
theorem successiveDerivatives_closed_means :
    let half : Constant := .real (.finite false (2 ^ 52) (-53) (by decide))
    let f : Formula := .operation .add
      [.operation .geomMean [.coordinate .x, .constant half, .coordinate .z],
        .operation .harmMean [.coordinate .x, .constant (.integer 7)]]
    (f.isWellFormed = true ∧ f.isReadable = true ∧ f.isCountable = true) ∧
      ∃ slopes, f.successiveDerivatives ["x", "w"] = .ok slopes ∧ slopes.length = 2 ∧
        ∀ g ∈ slopes, g.isWellFormed = true ∧ (∀ value ∈ g.constants, value.isFinite = true) ∧
          (∀ which ∈ g.coordinates, which ∈ f.coordinates) ∧
          g.isReadable = true ∧ ∀ form, form ≠ Notation.plain →
            ∃ h, (readText ⟨form, true⟩ (g.render form)).root? = .ok (some h) ∧
              g.agrees h = true := by
  intro half f
  have hWellFormed : f.isWellFormed = true := by decide +kernel
  have hReadable : f.isReadable = true := by decide +kernel
  have hCountable : f.isCountable = true := by decide +kernel
  obtain ⟨slopes, hSlopes, hLength, hAll⟩ :=
    successiveDerivatives_closed hWellFormed hReadable ["x", "w"]
  refine ⟨⟨hWellFormed, hReadable, hCountable⟩, slopes, hSlopes, hLength, fun g hg => ?_⟩
  obtain ⟨hSound, hConstants, hCoordinates, hTexts⟩ := hAll g hg
  exact ⟨hSound, hConstants, hCoordinates, hTexts hCountable⟩

end Reading

end Formulas
