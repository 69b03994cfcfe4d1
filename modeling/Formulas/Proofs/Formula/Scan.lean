import Formulas.Proofs.Constant.Text
import Formulas.Proofs.Formula.Spelling

/-! The text of a formula is split into the symbols of the formula, and the pieces stand
for the tokens of its normal form. Texts of operands are followed by blanks and closing
brackets only, so the runs at their ends never grow. -/
namespace Formulas

namespace Token

/-- The text is split into these parts wherever no run goes on behind it. -/
def SplitsInto (text : String) (parts : List String) : Prop :=
  ∀ rest, startsRun rest = false →
    pieces (text.toList ++ rest) = parts.map String.toList ++ pieces rest

variable {text text' : String} {parts parts' : List String}

theorem SplitsInto.split (hText : SplitsInto text parts) : Token.split text = parts := by
  have hPieces := hText [] rfl
  rw [List.append_nil, pieces, List.append_nil] at hPieces
  rw [Token.split, hPieces, List.map_map]
  simp [Function.comp_def]

theorem splitsInto_of_isRun (hRun : IsRun text.toList) : SplitsInto text [text] := by
  intro rest hRest
  exact pieces_run_append hRun hRest

theorem SplitsInto.blank (hText : SplitsInto text parts) (hText' : SplitsInto text' parts') :
    SplitsInto (text ++ " " ++ text') (parts ++ parts') := by
  intro rest hRest
  have hFirst := hText (' ' :: (text'.toList ++ rest)) rfl
  simp only [String.toList_append, List.append_assoc, List.map_append]
  exact hFirst.trans (by rw [pieces_blank, hText' rest hRest])

theorem SplitsInto.bracket (hText : SplitsInto text parts) :
    SplitsInto ("(" ++ text ++ ")") ("(" :: (parts ++ [")"])) := by
  intro rest hRest
  have hInner := hText (')' :: rest) rfl
  have hChars : ("(" ++ text ++ ")").toList ++ rest = '(' :: (text.toList ++ ')' :: rest) := by
    simp
  rw [hChars, pieces_opener, hInner, pieces_closer]
  simp

/-- Texts with blanks between them are split into all their parts. -/
theorem splitsInto_intercalate {texts : List String} {parts : List (List String)}
    (hTexts : List.Forall₂ SplitsInto texts parts) :
    SplitsInto (" ".intercalate texts) parts.flatten := by
  induction hTexts with
  | nil => exact fun rest _ => rfl
  | @cons text first texts parts hText hRest ih =>
      cases texts with
      | nil =>
          cases hRest
          simpa using hText
      | cons text' texts =>
          rw [String.intercalate_cons_cons, List.flatten_cons]
          exact hText.blank ih

theorem isRun_symbol (op : Operation) : IsRun op.symbol.toList := by
  cases op <;> decide

theorem isRun_name (which : Coordinate) : IsRun which.name.toList := by
  cases which <;> decide

end Token

namespace Formula

open Token (SplitsInto)

/-- Every constant has a text that is a number literal. -/
def isReadable : Formula → Bool :=
  everywhere Constant.isReadable fun _ _ => true

/-- The text of an operation is split like its operands, with the brackets and the symbol. -/
theorem splitsInto_operationText (form : Notation) (op : Operation) {texts : List String}
    {parts : List (List String)} (hTexts : List.Forall₂ SplitsInto texts parts) :
    SplitsInto (operationText form op texts) (operationSymbols .texts form op parts) := by
  have hSymbol := Token.splitsInto_of_isRun (Token.isRun_symbol op)
  have hOperands := Token.splitsInto_intercalate hTexts
  cases form with
  | plain => exact hOperands.blank hSymbol
  | prefixed =>
      have hText := (hSymbol.blank hOperands).bracket
      simpa [operationText, prefixedOperation, operationSymbols, Alphabet.texts,
        String.append_assoc] using hText
  | postfixed =>
      have hText := (hOperands.blank hSymbol).bracket
      simpa [operationText, postfixedOperation, operationSymbols, Alphabet.texts,
        String.append_assoc] using hText
  | infixed =>
      simp only [operationText, infixedOperation]
      split
      · next left right hOperator =>
          obtain ⟨leftParts, rightParts, rfl⟩ : ∃ p q, parts = [p, q] :=
            List.length_eq_two.mp hTexts.length_eq.symm
          cases hTexts with
          | cons hLeft hTexts =>
              cases hTexts with
              | cons hRight _ =>
                  have hText := ((hLeft.blank hSymbol).blank hRight).bracket
                  simpa [operationSymbols, hOperator, Alphabet.texts,
                    String.append_assoc] using hText
      · next hCall =>
          have hCalled : ¬ (op.isOperator = true ∧ parts.length = 2) := by
            rintro ⟨hOperator, hLength⟩
            obtain ⟨left, right, rfl⟩ :=
              List.length_eq_two.mp (hTexts.length_eq.trans hLength)
            exact hCall left right hOperator rfl
          rw [operationSymbols_call _ hCalled]
          exact (Token.splitsInto_intercalate (.cons hSymbol hTexts)).bracket

/-- The text of a formula is split into its symbols. -/
theorem splitsInto_render (form : Notation) (f : Formula) :
    SplitsInto (f.render form) (f.texts form) := by
  induction f with
  | constant value => exact Token.splitsInto_of_isRun (Constant.isRun_text value)
  | coordinate which => exact Token.splitsInto_of_isRun (Token.isRun_name which)
  | operation op operands ih =>
      rw [render_operation, texts, symbols_operation]
      apply splitsInto_operationText
      rw [List.forall₂_map_left_iff, List.forall₂_map_right_iff]
      exact List.forall₂_same.mpr ih

theorem split_render (form : Notation) (f : Formula) :
    Token.split (f.render form) = f.texts form :=
  (splitsInto_render form f).split

@[simp] theorem normal_normal (f : Formula) : f.normal.normal = f.normal := by
  induction f with
  | constant value => exact congrArg Formula.constant value.normal_normal
  | coordinate which => rfl
  | operation op operands ih =>
      simp only [normal_operation, List.map_map]
      exact congrArg (Formula.operation op) (List.map_congr_left ih)

/-- The text of a formula shows its constants in normal form. -/
@[simp] theorem render_normal (form : Notation) (f : Formula) :
    f.normal.render form = f.render form := by
  induction f with
  | constant value => exact congrArg Constant.literal value.normal_normal
  | coordinate which => rfl
  | operation op operands ih =>
      simp only [normal_operation, render_operation, List.map_map]
      exact congrArg (operationText form op) (List.map_congr_left ih)

/-- The pieces of a formula with readable constants stand for the tokens of its normal form. -/
theorem map_ofText_texts (form : Notation) {f : Formula} (hReadable : f.isReadable = true) :
    (f.texts form).map Token.ofText = f.normal.tokens form := by
  rw [texts, map_symbols]
  induction f with
  | constant value => exact congrArg (fun token => [token]) (Token.ofText_text hReadable)
  | coordinate which => exact congrArg (fun token => [token]) (Token.ofText_name which)
  | operation op operands ih =>
      have hParts : operands.map (symbols (Alphabet.texts.map Token.ofText) form) =
          (operands.map normal).map (symbols .tokens form) := by
        rw [List.map_map]
        apply List.map_congr_left
        intro f hf
        exact ih f hf ((everywhere_operation.mp hReadable).2 f hf)
      have hSymbol : (Alphabet.texts.map Token.ofText).operation = Alphabet.tokens.operation :=
        funext Token.ofText_symbol
      rw [normal_operation, tokens, symbols_operation, symbols_operation, hParts]
      cases form <;> simp only [operationSymbols, hSymbol] <;> rfl

/-- The text of a formula is read from the tokens of its normal form. -/
theorem scan_render (form : Notation) {f : Formula} (hReadable : f.isReadable = true) :
    Token.scan (f.render form) = f.normal.tokens form := by
  rw [Token.scan, split_render, map_ofText_texts form hReadable]

end Formula

end Formulas
