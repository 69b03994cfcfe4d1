import Formulas.Proofs.Formula.Constants
import Formulas.Proofs.Numeral.Value
import Formulas.Proofs.Reading.Conservation
import Formulas.Proofs.Reading.RoundTrip
import Formulas.Proofs.Reading.WellFormed

/-! Formulas that were read from any text are written back. Their constants are literals of
the text, so only a literal too large to be finite keeps a formula from being read again. -/
namespace Formulas

/-- The text of a constant is known to the reader exactly if the constant is readable. -/
theorem Token.isKnown_ofText_text (c : Constant) :
    (ofText c.text).isKnown = c.isReadable := by
  cases hReadable : c.isReadable with
  | true => exact congrArg isKnown (ofText_text hReadable)
  | false =>
      rcases ofText_text_of_not_readable hReadable with ⟨n, -, hText⟩ | ⟨x, -, hText⟩
      · exact congrArg isKnown hText
      · exact congrArg isKnown hText

namespace Formula

/-- Every constant stands among the symbols of its formula. -/
theorem mem_symbols_of_mem_constants {α : Type} (a : Alphabet α) (form : Notation) {f : Formula}
    {value : Constant} (hValue : value ∈ f.constants) : a.constant value ∈ f.symbols a form := by
  induction f with
  | constant other =>
      obtain rfl : value = other := by simpa using hValue
      exact List.mem_singleton_self _
  | coordinate which => simp at hValue
  | operation op operands ih =>
      rw [constants_operation] at hValue
      obtain ⟨f, hf, hValue⟩ := List.mem_flatMap.mp hValue
      rw [symbols_operation]
      exact subset_operationSymbols a form op (List.mem_map_of_mem hf) (ih f hf hValue)

end Formula

namespace Reading

variable {s : Settings} {text : String} {f : Formula} {form : Notation}

/-- Strict reading accepts the text of a formula only if all constants are readable. -/
theorem isReadable_of_strict_read (hRead : ∃ g,
    (readText ⟨form, true⟩ (f.render form)).root? = .ok (some g)) : f.isReadable = true := by
  obtain ⟨g, hRoot⟩ := hRead
  obtain ⟨stack, hResult, -⟩ := mem_of_root? hRoot
  have hKnown := isKnown_of_strict_read rfl hResult
  refine Formula.everywhere_iff_constants.mpr fun value hValue => ?_
  rw [← Token.isKnown_ofText_text]
  apply hKnown
  rw [Token.scan, Formula.split_render]
  exact List.mem_map_of_mem (Formula.mem_symbols_of_mem_constants .texts form hValue)

/-- The constants of a formula that is read are literals of the text. -/
theorem exists_piece_of_mem_constants (hRoot : (readText s text).root? = .ok (some f))
    {value : Constant} (hValue : value ∈ f.constants) :
    ∃ piece ∈ Token.split text, Numeral.read piece = .number value := by
  obtain ⟨stack, hResult, hf⟩ := mem_of_root? hRoot
  have hLeaf : Formula.constant value ∈ (s.arrange stack).flatMap Formula.leaves :=
    List.mem_flatMap_of_mem (Settings.mem_arrange.mpr hf) (Formula.mem_constants_iff.mp hValue)
  rw [leaves_of_read hResult] at hLeaf
  obtain ⟨token, hToken, hValue⟩ := List.mem_filterMap.mp hLeaf
  obtain ⟨piece, hPiece, rfl⟩ := List.mem_map.mp hToken
  refine ⟨piece, hPiece, Token.read_of_ofText ?_⟩
  rcases Token.leaf?_eq_some hValue with ⟨which, -, hOther⟩ | ⟨other, hNumber, hOther⟩
  · cases hOther
  · cases hOther
    exact hNumber

/-- What has been read is readable again if it is finite. -/
theorem isReadable_iff_of_root? (hRoot : (readText s text).root? = .ok (some f)) :
    f.isReadable = true ↔ ∀ value ∈ f.constants, value.isFinite = true := by
  refine Formula.everywhere_iff_constants.trans (forall₂_congr fun value hValue => ?_)
  obtain ⟨piece, -, hRead⟩ := exists_piece_of_mem_constants hRoot hValue
  rw [Numeral.isReadable_of_read hRead]

/-- Whatever text a formula was read from, in any notation and strictly or not, all its
constants are literals of that text, and in each form with brackets its own text is read
strictly as an equal formula exactly if all these literals are finite numbers. -/
theorem readText_render_iff_finite (hRoot : (readText s text).root? = .ok (some f)) :
    (∀ value ∈ f.constants, ∃ piece ∈ Token.split text, Numeral.read piece = .number value) ∧
      ∀ form ≠ .plain,
        ((∃ g, (readText ⟨form, true⟩ (f.render form)).root? = .ok (some g) ∧
            f.agrees g = true) ↔
          ∀ value ∈ f.constants, value.isFinite = true) := by
  refine ⟨fun value => exists_piece_of_mem_constants hRoot, fun form hForm => ?_⟩
  rw [← isReadable_iff_of_root? hRoot]
  constructor
  · rintro ⟨g, hRead, -⟩
    exact isReadable_of_strict_read ⟨g, hRead⟩
  · intro hReadable
    obtain ⟨stack, hResult, hf⟩ := mem_of_root? hRoot
    have hWellFormed := isWellFormed_of_read hResult f hf
    exact ⟨f.normal, root?_readText_render hForm true hWellFormed hReadable,
      by simp [Formula.agrees]⟩

/-- A product that is read with a superfluous bracket behind it. -/
theorem readText_render_iff_finite_product :
    let s : Settings := ⟨.infixed, false⟩
    let thousand : Constant := .real (.finite false 8796093022208000 (-43) (by decide))
    let f : Formula := .operation .mul [.constant thousand, .coordinate .x]
    (readText s "1e3 * x)").root? = .ok (some f) ∧
      (∀ value ∈ f.constants,
        ∃ piece ∈ Token.split "1e3 * x)", Numeral.read piece = .number value) ∧
      ∃ g, (readText ⟨.postfixed, true⟩ (f.render .postfixed)).root? = .ok (some g) ∧
        f.agrees g = true := by
  intro s thousand f
  have hRoot : (readText s "1e3 * x)").root? = .ok (some f) := by decide +kernel
  obtain ⟨hLiterals, hForms⟩ := readText_render_iff_finite hRoot
  refine ⟨hRoot, hLiterals, (hForms .postfixed (by decide)).mpr ?_⟩
  decide +kernel

/-- A literal beyond the largest double precision number is read as infinity, whose text is
no literal. -/
theorem readText_render_overflow :
    let f : Formula := .constant (.real (.infinite false))
    (readText ⟨.infixed, true⟩ "1e999").root? = .ok (some f) ∧
      f.render .infixed = "inf" ∧
      [Notation.infixed, .prefixed, .postfixed].map
          (fun form => (readText ⟨form, true⟩ (f.render form)).result) =
        List.replicate 3 (.error (.mistake (.unknownToken "inf"))) := by
  intro f
  refine ⟨?_, ?_, ?_⟩ <;> decide +kernel

end Reading

end Formulas
