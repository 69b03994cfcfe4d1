import Formulas.Proofs.Formula.Closure
import Formulas.Proofs.Formula.Derivative
import Formulas.Proofs.Formula.Totality

/-! The order of two derivatives does not matter for their values. Over dual numbers of dual
numbers a formula has one value, in which both second derivatives are found, and exchanging
the two directions is a ring homomorphism. -/
namespace Formulas

open Arithmetic
open scoped DualNumber

theorem keptByRules_isRootFree : KeptByRules fun f => f.isRootFree = true :=
  keptByRules_everywhere (fun _ _ => rfl)
    (fun op count hArity => by cases op <;> simp_all [Operation.arity]) fun _ _ _ _ _ => ⟨rfl, rfl⟩

section
variable {R : Type}

/-- Dual numbers over dual numbers with the two directions exchanged. -/
def exchanged (z : R[ε][ε]) : R[ε][ε] :=
  ((z.fst.fst, z.snd.fst), (z.fst.snd, z.snd.snd))

variable (z : R[ε][ε])

@[simp] theorem exchanged_fst_fst : (exchanged z).fst.fst = z.fst.fst := rfl

@[simp] theorem exchanged_fst_snd : (exchanged z).fst.snd = z.snd.fst := rfl

@[simp] theorem exchanged_snd_fst : (exchanged z).snd.fst = z.fst.snd := rfl

@[simp] theorem exchanged_snd_snd : (exchanged z).snd.snd = z.snd.snd := rfl

end

variable {R α : Type} [CommRing R] [Arithmetic α]

/-- Exchanging the directions keeps sums and products. -/
def exchange : R[ε][ε] →+* R[ε][ε] where
  toFun := exchanged
  map_one' := rfl
  map_mul' z w := by
    refine TrivSqZeroExt.ext (TrivSqZeroExt.ext ?_ ?_) (TrivSqZeroExt.ext ?_ ?_)
    · simp
    · simp
    · simp
    · simp only [exchanged_snd_snd, exchanged_fst_fst, exchanged_fst_snd, exchanged_snd_fst,
        DualNumber.snd_mul, TrivSqZeroExt.snd_add]
      ring
  map_zero' := rfl
  map_add' _ _ := rfl

instance isLocalHom_exchange : IsLocalHom (exchange : R[ε][ε] →+* R[ε][ε]) where
  map_nonunit _ hUnit := hUnit.map exchange

namespace Formula

variable {i : Interpretation α} {number : R → α} {point : List α} {f : Formula} {u v : String}

/-- The value of a second derivative, from the value in dual numbers of dual numbers. -/
theorem exists_second_derivative (hOver : i.IsOver number) (hRootFree : f.isRootFree = true)
    {z : R[ε][ε]} (hDual : i.dual.dual.evaluate (Coordinate.seeds u (Coordinate.seeds v point)) f =
      .ok (Dual.pair (Dual.pair number) z)) :
    ∃ first second, f.derivative u = .ok first ∧ first.derivative v = .ok second ∧
      i.evaluate point second = .ok (number z.snd.snd) := by
  have hWellFormed := Interpretation.isWellFormed_of_evaluate hDual
  obtain ⟨first, hFirst⟩ := exists_isDifferentiable_of_dual hOver.dual hRootFree hDual
  obtain ⟨slope, hSlope, hSlopeRootFree⟩ :=
    keptByRules_isRootFree.exists_derivative u hWellFormed hRootFree
  obtain rfl : slope = first := Except.ok.inj (hSlope.symm.trans hFirst.derivative)
  obtain ⟨second, hSecond⟩ :=
    exists_isDifferentiable_of_dual hOver hSlopeRootFree hFirst.represents.slope
  exact ⟨slope, second, hSlope, hSecond.derivative, hSecond.represents.slope⟩

/-- The value of a formula without roots in dual numbers of dual numbers, when the two
directions are taken in the other order. -/
theorem exists_exchanged (hOver : i.IsOver number) (hRootFree : f.isRootFree = true)
    {z : R[ε][ε]} (hDual : i.dual.dual.evaluate (Coordinate.seeds u (Coordinate.seeds v point)) f =
      .ok (Dual.pair (Dual.pair number) z)) :
    i.dual.dual.evaluate (Coordinate.seeds v (Coordinate.seeds u point)) f =
      .ok (Dual.pair (Dual.pair number) (exchange z)) := by
  have hLeaves (g : Formula) (p : R[ε][ε]) (hLeaf : g.isOperation = false)
      (hLeafValue : i.dual.dual.evaluate (Coordinate.seeds u (Coordinate.seeds v point)) g =
        .ok (Dual.pair (Dual.pair number) p)) :
      ∃ s, exchange s = p ∧
        i.dual.dual.evaluate (Coordinate.seeds v (Coordinate.seeds u point)) g =
          .ok (Dual.pair (Dual.pair number) s) := by
    refine ⟨exchange p, rfl, ?_⟩
    rw [Interpretation.evaluate_dual_leaf _ _ _ hLeaf,
      Interpretation.evaluate_dual_leaf _ _ _ hLeaf] at hLeafValue ⊢
    obtain ⟨_, hInner, hOuter⟩ := Result.map_eq_ok.mp hLeafValue
    obtain ⟨a, hValue, rfl⟩ := Result.map_eq_ok.mp hInner
    rw [hValue]
    obtain ⟨hFirst, hSecond⟩ := Dual.mk.inj hOuter
    obtain ⟨rfl, hAlongV⟩ := Dual.mk.inj hFirst
    obtain ⟨hAlongU, hBoth⟩ := Dual.mk.inj hSecond
    exact congrArg Except.ok (congrArg₂ Dual.mk (congrArg (Dual.mk _) hAlongU)
      (congrArg₂ Dual.mk hAlongV hBoth))
  obtain ⟨w, rfl, hExchanged⟩ :=
    hOver.dual.dual.exists_lift hOver.dual.dual exchange hLeaves hRootFree hDual
  exact hExchanged

/-- Two derivatives of a formula without geometric means have the same exact value in either
order, wherever the formula has one. -/
theorem derivative_comm {f : Formula} (u v : String) (point : List ℚ) {q : ℚ}
    (hRootFree : f.isRootFree = true)
    (hDefined : Interpretation.exact.evaluate (point.map some) f = .ok (some q)) :
    ∃ ofU ofV ofUV ofVU r, f.derivative u = .ok ofU ∧ ofU.derivative v = .ok ofUV ∧
      f.derivative v = .ok ofV ∧ ofV.derivative u = .ok ofVU ∧
      Interpretation.exact.evaluate (point.map some) ofUV = .ok (some r) ∧
      Interpretation.exact.evaluate (point.map some) ofVU = .ok (some r) := by
  have hOver := Interpretation.isOver_exact
  obtain ⟨z, -, hOnce⟩ := exists_dual v hOver hRootFree hDefined
  obtain ⟨z, -, hTwice⟩ := exists_dual u hOver.dual hRootFree hOnce
  obtain ⟨ofU, ofUV, hU, hUV, hValue⟩ := exists_second_derivative hOver hRootFree hTwice
  obtain ⟨ofV, ofVU, hV, hVU, hValue'⟩ :=
    exists_second_derivative hOver hRootFree (exists_exchanged hOver hRootFree hTwice)
  exact ⟨ofU, ofV, ofUV, ofVU, z.snd.snd, hU, hUV, hV, hVU, hValue, hValue'⟩

/-- The harmonic mean of a coordinate and a quotient of the two others. The two second
derivatives are different formulas. -/
theorem derivative_comm_harmMean :
    let f : Formula := .operation .harmMean
      [.coordinate .x, .operation .div [.coordinate .y, .coordinate .z]]
    let point : List ℚ := [3, 4, 5]
    (f.isRootFree = true ∧
        Interpretation.exact.evaluate (point.map some) f = .ok (some (24 / 19))) ∧
      (f.derivative "x" >>= derivative "y") ≠ (f.derivative "y" >>= derivative "x") ∧
      ∃ ofX ofY ofXY ofYX r, f.derivative "x" = .ok ofX ∧ ofX.derivative "y" = .ok ofXY ∧
        f.derivative "y" = .ok ofY ∧ ofY.derivative "x" = .ok ofYX ∧
        Interpretation.exact.evaluate (point.map some) ofXY = .ok (some r) ∧
        Interpretation.exact.evaluate (point.map some) ofYX = .ok (some r) := by
  intro f point
  have hRootFree : f.isRootFree = true := by decide +kernel
  have hDefined : Interpretation.exact.evaluate (point.map some) f = .ok (some (24 / 19)) := by
    decide +kernel
  exact ⟨⟨hRootFree, hDefined⟩, by decide +kernel,
    derivative_comm "x" "y" point hRootFree hDefined⟩

end Formula

end Formulas
