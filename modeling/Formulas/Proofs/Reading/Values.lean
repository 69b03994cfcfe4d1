import Formulas.Proofs.Constant.Exact
import Formulas.Proofs.Formula.Constants
import Formulas.Proofs.Reading.RoundTrip

/-! Formulas that are written and read back keep their values. Every constant becomes the
same double precision number as before, or is likewise too large for one; only zero loses
its sign, since a zero is written without one. -/
namespace Formulas

/-- Constants are given values through the double precision numbers nearest to them. -/
def Interpretation.throughBinary64 {α : Type} (number : Binary64 → α)
    (operation : Operation → List α → α) : Interpretation α :=
  ⟨fun value => value.toBinary64?.map number, operation⟩

namespace Formula

/-- The normal form is obtained by replacing the constants. -/
theorem normal_eq_mapConstants (f : Formula) : f.normal = f.mapConstants Constant.normal := rfl

/-- The formula with every zero written without its sign. -/
def dropZeroSigns (f : Formula) : Formula :=
  f.mapConstants Constant.dropZeroSign

theorem dropZeroSigns_of_not_mem {f : Formula} (hNone : .real (.zero true) ∉ f.constants) :
    f.dropZeroSigns = f :=
  mapConstants_of_forall fun _ hValue =>
    Constant.dropZeroSign_of_ne fun hZero => hNone (hZero ▸ hValue)

/-- The normal form has the values of the formula without the signs of zeros. -/
theorem evaluate_normal {α : Type} (number : Binary64 → α) (operation : Operation → List α → α)
    (point : List α) (f : Formula) :
    (Interpretation.throughBinary64 number operation).evaluate point f.normal =
      (Interpretation.throughBinary64 number operation).evaluate point f.dropZeroSigns := by
  rw [normal_eq_mapConstants, dropZeroSigns, Interpretation.evaluate_mapConstants,
    Interpretation.evaluate_mapConstants]
  simp only [Interpretation.throughBinary64, Constant.toBinary64?_normal]

theorem value_normal (f : Formula) (point : List Float) :
    f.normal.value point = f.dropZeroSigns.value point := by
  have hMachine (point : List Float) :
      Interpretation.machine.evaluate point f.normal =
        Interpretation.machine.evaluate point f.dropZeroSigns :=
    evaluate_normal Binary64.toFloat Arithmetic.combine point f
  simp only [value, hMachine]

end Formula

namespace Reading

/-- A well-formed formula with readable constants is read back from its text in every form
with brackets as a formula of the same shape whose constants become the same double precision
numbers, one by one, but for the signs of zeros. So it has the same values at every point as
the formula in which zeros have no sign, whatever the operations do with these numbers, and
this is the formula itself if it has no negative zero. -/
theorem readText_render_values {f : Formula} {form : Notation} (hForm : form ≠ .plain)
    (strict : Bool) (hWellFormed : f.isWellFormed = true) (hReadable : f.isReadable = true) :
    ∃ g, (readText ⟨form, strict⟩ (f.render form)).root? = .ok (some g) ∧ f.agrees g = true ∧
      g.constants.map Constant.toBinary64? =
        f.constants.map (fun value => value.dropZeroSign.toBinary64?) ∧
      (∀ (α : Type) (number : Binary64 → α) (operation : Operation → List α → α)
        (point : List α),
        (Interpretation.throughBinary64 number operation).evaluate point g =
          (Interpretation.throughBinary64 number operation).evaluate point f.dropZeroSigns) ∧
      (∀ point, g.value point = f.dropZeroSigns.value point) ∧
      (.real (.zero true) ∉ f.constants → f.dropZeroSigns = f) := by
  refine ⟨f.normal, root?_readText_render hForm strict hWellFormed hReadable,
    by simp [Formula.agrees], ?_, fun α number operation point => ?_, ?_, ?_⟩
  · rw [Formula.normal_eq_mapConstants, Formula.constants_mapConstants, List.map_map]
    exact List.map_congr_left fun value _ => value.toBinary64?_normal
  · exact Formula.evaluate_normal number operation point f
  · exact Formula.value_normal f
  · exact Formula.dropZeroSigns_of_not_mem

/-- The mean of an integer that is no double precision number and of a negative zero. -/
theorem readText_render_values_mean :
    let f : Formula := .operation .arithMean
      [.constant (.integer (2 ^ 53 + 1)), .constant (.real (.zero true))]
    (Notation.infixed ≠ .plain ∧ f.isWellFormed = true ∧ f.isReadable = true) ∧
      ∃ g, (readText ⟨.infixed, false⟩ (f.render .infixed)).root? = .ok (some g) ∧
        f.agrees g = true ∧
        g.constants.map Constant.toBinary64? =
          [some (.finite false (2 ^ 52) 1 (by decide)), some (.zero false)] ∧
        (∀ (α : Type) (number : Binary64 → α) (operation : Operation → List α → α)
          (point : List α),
          (Interpretation.throughBinary64 number operation).evaluate point g =
            (Interpretation.throughBinary64 number operation).evaluate point f.dropZeroSigns) ∧
        ∀ point, g.value point = f.dropZeroSigns.value point := by
  intro f
  have hForm : Notation.infixed ≠ .plain := by decide
  have hWellFormed : f.isWellFormed = true := by decide +kernel
  have hReadable : f.isReadable = true := by decide +kernel
  obtain ⟨g, hRead, hAgrees, hNumbers, hValues, hMachine, -⟩ :=
    readText_render_values hForm false hWellFormed hReadable
  refine ⟨⟨hForm, hWellFormed, hReadable⟩, g, hRead, hAgrees, hNumbers.trans ?_, hValues, hMachine⟩
  decide +kernel

/-- One divided by negative zero is read back as one divided by zero, which is another
infinity. -/
theorem readText_render_negative_zero :
    let f : Formula := .operation .div [.constant (.integer 1), .constant (.real (.zero true))]
    let g : Formula := .operation .div [.constant (.integer 1), .constant (.integer 0)]
    (f.isWellFormed = true ∧ f.isReadable = true) ∧
      (readText ⟨.prefixed, true⟩ (f.render .prefixed)).root? = .ok (some g) ∧
      g.constants.map Constant.toBinary64? ≠ f.constants.map Constant.toBinary64? ∧
      (f.value []).toOption.map Float.toBits = some 0xFFF0000000000000 ∧
      (g.value []).toOption.map Float.toBits = some 0x7FF0000000000000 := by
  intro f g
  refine ⟨⟨?_, ?_⟩, ?_, ?_, ?_, ?_⟩ <;> decide +kernel

end Reading

end Formulas
