import Formulas.Proofs.Reading.Conservation
import Formulas.Proofs.Reading.Strictness

/-! Texts that strict reading accepts, where mistakes are repaired. There is nothing to repair
in them: no operation is passed over, and no token is. -/
namespace Formulas.Reading

variable {s : Settings} {st last : State} {next? : Option Token} {tokens : List Token}

/-- What is not refused is read to the same state when mistakes are repaired. -/
theorem advance_lenient (hAdvance : st.advance s next? tokens = .ok last) :
    st.advance s.lenient next? tokens = .ok last := by
  induction tokens generalizing st with
  | nil => exact hAdvance
  | cons token rest ih =>
      obtain ⟨mid, hStep, hLater⟩ := advance_cons_eq_ok.mp hAdvance
      exact advance_cons_eq_ok.mpr ⟨mid, State.step_lenient hStep, ih hLater⟩

/-- The states of a strict reader are states of one that repairs, also in a text that is refused
later. -/
theorem reaches_lenient (hReaches : s.Reaches tokens st) : s.lenient.Reaches tokens st := by
  obtain ⟨passed, left, hOrder, hAdvance⟩ := hReaches
  exact ⟨passed, left, hOrder, advance_lenient hAdvance⟩

/-- Where strict reading succeeds, repairing has nothing to say but that it has finished. -/
theorem read_lenient_of_strict_read {stack : List Formula} (hStrict : s.strict = true)
    (hRead : (read s tokens).result = .ok stack) :
    read s.lenient tokens = ⟨.ok stack, [.finished tokens.length s.lenient]⟩ := by
  obtain ⟨last, said, hAdvance, hFinish, -⟩ := advance_of_read hRead
  obtain ⟨start, hCourse⟩ := finish_course hFinish
  have hSaid : said = [] := (((advance_course hAdvance).trans hCourse).strict hStrict).1
  exact run_eq_iff.mpr ⟨last, said, advance_lenient hAdvance, State.finish_lenient hFinish, by
    simp [hSaid]⟩

/-- Strict reading only restricts. Whatever the pieces of a text are, the states that it goes
through are those of reading with repairs, up to where it stops; and a text that it accepts is
read with repairs to the same formula, with nothing else left on the stack and no notice of
anything that was passed over. -/
theorem read_pieces_lenient {form : Notation} {pieces : List String} {f : Formula}
    (hRoot : (read ⟨form, true⟩ (pieces.map Token.ofText)).root? = .ok (some f)) :
    read ⟨form, false⟩ (pieces.map Token.ofText) =
        ⟨.ok [f], [.finished pieces.length ⟨form, false⟩]⟩ ∧
      (read ⟨form, false⟩ (pieces.map Token.ofText)).root? = .ok (some f) ∧
      ∀ st, Settings.Reaches ⟨form, true⟩ (pieces.map Token.ofText) st →
        Settings.Reaches ⟨form, false⟩ (pieces.map Token.ofText) st := by
  obtain ⟨stack, hRead, hLast⟩ := Result.map_eq_ok.mp hRoot
  obtain ⟨g, rfl⟩ := List.length_eq_one_iff.mp (strict_length_eq_one rfl hRead)
  obtain rfl : g = f := by simpa using hLast
  have hLenient : read ⟨form, false⟩ (pieces.map Token.ofText) =
      ⟨.ok [g], [.finished (pieces.map Token.ofText).length ⟨form, false⟩]⟩ :=
    read_lenient_of_strict_read rfl hRead
  rw [List.length_map] at hLenient
  exact ⟨hLenient, congrArg Outcome.root? hLenient, fun st => reaches_lenient⟩

/-- A quotient of a mean and a negation, which is read from back to front. -/
theorem read_pieces_lenient_quotient :
    let sound := ["(", "/", "(", "arithMean", "1", "x", ")", "(", "negate", "y", ")", ")"]
    let mean : Formula := .operation .arithMean [.constant (.integer 1), .coordinate .x]
    let f : Formula := .operation .div [mean, .operation .negate [.coordinate .y]]
    (read ⟨.prefixed, true⟩ (sound.map Token.ofText)).root? = .ok (some f) ∧
      read ⟨.prefixed, false⟩ (sound.map Token.ofText) =
        ⟨.ok [f], [.finished 12 ⟨.prefixed, false⟩]⟩ ∧
      (read ⟨.prefixed, false⟩ (sound.map Token.ofText)).root? = .ok (some f) ∧
      ∀ st, Settings.Reaches ⟨.prefixed, true⟩ (sound.map Token.ofText) st →
        Settings.Reaches ⟨.prefixed, false⟩ (sound.map Token.ofText) st := by
  intro sound mean f
  have hRoot : (read ⟨.prefixed, true⟩ (sound.map Token.ofText)).root? = .ok (some f) := by
    decide
  exact ⟨hRoot, read_pieces_lenient hRoot⟩

end Formulas.Reading
