import Formulas.Proofs.Formula.Closure
import Formulas.Proofs.Formula.Totality
import Formulas.Proofs.Reading.Advance
import Mathlib.Order.Nat

/-! Reading builds well-formed formulas only, from whatever tokens, so what has been read
always has a derivative, and a value unless a constant is too large. -/
namespace Formulas.Reading

variable {s : Settings} {st next : State} {tokens : List Token}

/-- An operation that has been applied has an admitted number of operands. -/
theorem isWellFormed_applyTop {op : Operation} {available taken : Nat} {stack : List Formula}
    (hTake : op.arity.take? available = some taken) (hAvailable : available ≤ stack.length)
    (hStack : ∀ f ∈ stack, f.isWellFormed = true) :
    ∀ f ∈ applyTop s op taken stack, f.isWellFormed = true := by
  obtain ⟨hAdmits, hTaken⟩ := Arity.take?_eq_some hTake
  intro f hf
  rcases List.mem_cons.mp hf with rfl | hf
  · rw [Formula.isWellFormed_operation]
    constructor
    · rw [Settings.length_arrange, List.length_take_of_le (hTaken.trans hAvailable)]
      exact hAdmits
    · intro part hPart
      exact hStack part (List.mem_of_mem_take (Settings.mem_arrange.mp hPart))
  · exact hStack f (List.mem_of_mem_drop hf)

theorem Move.isWellFormed (move : Move s st tokens next)
    (hStack : ∀ f ∈ st.stack, f.isWellFormed = true) :
    ∀ f ∈ next.stack, f.isWellFormed = true := by
  cases move with
  | push hLeaf =>
      intro g hg
      rcases List.mem_cons.mp hg with rfl | hg
      · rcases Token.leaf?_eq_some hLeaf with ⟨which, -, rfl⟩ | ⟨value, -, rfl⟩ <;> rfl
      · exact hStack g hg
  | apply hTake => exact isWellFormed_applyTop hTake (Nat.sub_le ..) hStack
  | complete hWaiting hTake => exact isWellFormed_applyTop hTake (Nat.sub_le ..) hStack
  | enter => exact hStack
  | await hWaits hBase => exact hStack
  | starve hLenient hFew => exact hStack
  | skip hLenient => exact hStack
  | ignore hLenient hOuter => exact hStack
  | drop hLenient hWaiting hFew => exact hStack
  | leave hOuter hWaiting => exact hStack
  | abandon hLenient hOuter hWaiting => exact hStack

theorem Course.isWellFormed (course : Course s st tokens next)
    (hStack : ∀ f ∈ st.stack, f.isWellFormed = true) :
    ∀ f ∈ next.stack, f.isWellFormed = true := by
  induction course with
  | refl => exact hStack
  | move prior last ih => exact last.isWellFormed ih

/-- All formulas that lie on the stack while a text is read, and those that are left at its
end, are well formed. -/
theorem isWellFormed_of_reaches (hReaches : s.Reaches tokens st) :
    ∀ f ∈ st.stack, f.isWellFormed = true := by
  obtain ⟨passed, left, -, hAdvance⟩ := hReaches
  exact (advance_course hAdvance).isWellFormed (by simp [State.initial])

theorem isWellFormed_of_read {stack : List Formula} (hRead : (read s tokens).result = .ok stack) :
    ∀ f ∈ stack, f.isWellFormed = true := by
  obtain ⟨start, said, hCourse, -⟩ := read_course hRead
  exact hCourse.isWellFormed (by simp [State.initial])

theorem mem_of_root? {outcome : Outcome} {f : Formula} (hRoot : outcome.root? = .ok (some f)) :
    ∃ stack, outcome.result = .ok stack ∧ f ∈ stack := by
  obtain ⟨stack, hResult, hLast⟩ := Result.map_eq_ok.mp hRoot
  exact ⟨stack, hResult, List.mem_of_getLast? hLast⟩

/-- Whatever the pieces of a text are, every operation on the stack has a number of operands
that it admits, after each piece and at the end. So the formula that is read always has a
derivative, and at every point a value, unless one of its integers is too large for one. -/
theorem read_pieces_isWellFormed (s : Settings) (pieces : List String) :
    (∀ st, s.Reaches (pieces.map Token.ofText) st → ∀ f ∈ st.stack, f.isWellFormed = true) ∧
      (∀ stack, (read s (pieces.map Token.ofText)).result = .ok stack →
        ∀ f ∈ stack, f.isWellFormed = true) ∧
      ∀ f, (read s (pieces.map Token.ofText)).root? = .ok (some f) →
        f.isWellFormed = true ∧
          (∀ x y z : Float, (∃ a, f.value [x, y, z] = .ok a) ∨
            f.value [x, y, z] = .error .integerTooLarge) ∧
          ∀ name, ∃ slope, f.derivative name = .ok slope := by
  refine ⟨fun st => isWellFormed_of_reaches, fun stack => isWellFormed_of_read, ?_⟩
  intro f hRoot
  obtain ⟨stack, hRead, hf⟩ := mem_of_root? hRoot
  have hWellFormed := isWellFormed_of_read hRead f hf
  exact ⟨hWellFormed, fun x y z => Formula.value_total hWellFormed (Nat.le_refl 3),
    Formula.exists_derivative hWellFormed⟩

/-- A mean of a sum, before and after the brackets behind it in which two operations lack
operands. -/
theorem read_pieces_isWellFormed_mean :
    let s : Settings := ⟨.infixed, false⟩
    let pieces := ["1", "2", "3", "+", "arithMean", "(", "hypot", "y", "+"]
    let number (n : Int) : Formula := .constant (.integer n)
    let f : Formula := .operation .arithMean [number 1, .operation .add [number 2, number 3]]
    let st : State := ⟨[f], ⟨1, [⟨.hypot, 1⟩]⟩, [⟨0, []⟩], []⟩
    let stack := [.coordinate .y, f]
    (s.Reaches (pieces.map Token.ofText) st ∧
        (read s (pieces.map Token.ofText)).result = .ok stack ∧
        (read s (pieces.map Token.ofText)).root? = .ok (some f)) ∧
      (∀ f ∈ st.stack, f.isWellFormed = true) ∧ (∀ f ∈ stack, f.isWellFormed = true) ∧
      f.isWellFormed = true ∧
      (∀ x y z : Float, (∃ a, f.value [x, y, z] = .ok a) ∨
        f.value [x, y, z] = .error .integerTooLarge) ∧
      ∀ name, ∃ slope, f.derivative name = .ok slope := by
  intro s pieces number f st stack
  have hReaches : s.Reaches (pieces.map Token.ofText) st := by
    let passed : List Token := [.number (.integer 1), .number (.integer 2), .number (.integer 3),
      .operation .add, .operation .arithMean, .opener, .operation .hypot]
    exact ⟨passed, [.coordinate .y, .operation .add], by decide, rfl⟩
  have hRead : (read s (pieces.map Token.ofText)).result = .ok stack := by decide
  have hRoot : (read s (pieces.map Token.ofText)).root? = .ok (some f) := by decide
  obtain ⟨hStates, hEnd, hWhole⟩ := read_pieces_isWellFormed s pieces
  exact ⟨⟨hReaches, hRead, hRoot⟩, hStates st hReaches, hEnd stack hRead, hWhole f hRoot⟩

end Formulas.Reading
