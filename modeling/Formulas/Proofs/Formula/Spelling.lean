import Formulas.Formula.Rendering
import Formulas.Proofs.Formula.Shape
import Formulas.Token
import Mathlib.Data.List.Basic

/-! Formulas as sequences of symbols. What the symbols are is a parameter: tokens, pieces
of text, or anything else that brackets, operations, coordinates and constants stand for. -/
namespace Formulas

/-- What the parts of a formula stand for when it is written down. -/
@[ext] structure Alphabet (α : Type) where
  opener : α
  closer : α
  operation : Operation → α
  coordinate : Coordinate → α
  constant : Constant → α

namespace Alphabet

variable {α β : Type}

/-- The same alphabet with every symbol replaced. -/
def map (g : α → β) (a : Alphabet α) : Alphabet β :=
  ⟨g a.opener, g a.closer, g ∘ a.operation, g ∘ a.coordinate, g ∘ a.constant⟩

/-- The same alphabet with the two brackets exchanged. -/
def flip (a : Alphabet α) : Alphabet α :=
  { a with opener := a.closer, closer := a.opener }

/-- Every part as the token that it is read as. -/
def tokens : Alphabet Token :=
  ⟨.opener, .closer, .operation, .coordinate, .number⟩

/-- Every part as the text that it is written as. -/
def texts : Alphabet String :=
  ⟨"(", ")", Operation.symbol, Coordinate.name, Constant.text⟩

end Alphabet

namespace Formula

variable {α β : Type}

/-- The symbols of an operation in a notation, from the symbols of its operands. -/
def operationSymbols (a : Alphabet α) : Notation → Operation → List (List α) → List α
  | .plain, op, parts => parts.flatten ++ [a.operation op]
  | .prefixed, op, parts => a.opener :: a.operation op :: (parts.flatten ++ [a.closer])
  | .postfixed, op, parts => a.opener :: (parts.flatten ++ [a.operation op, a.closer])
  | .infixed, op, parts =>
    match op.isOperator, parts with
    | true, [left, right] => a.opener :: (left ++ a.operation op :: (right ++ [a.closer]))
    | _, _ => a.opener :: a.operation op :: (parts.flatten ++ [a.closer])

/-- The symbols of a formula in a notation. -/
def symbols (a : Alphabet α) (form : Notation) : Formula → List α :=
  fold (fun value => [a.constant value]) (fun which => [a.coordinate which])
    (operationSymbols a form)

/-- The tokens that a formula is read from. -/
def tokens : Notation → Formula → List Token :=
  symbols .tokens

/-- The pieces of text that a formula is written as. -/
def texts : Notation → Formula → List String :=
  symbols .texts

theorem symbols_operation (a : Alphabet α) (form : Notation) (op : Operation)
    (operands : List Formula) :
    symbols a form (.operation op operands) =
      operationSymbols a form op (operands.map (symbols a form)) :=
  fold_operation ..

theorem tokens_operation (form : Notation) (op : Operation) (operands : List Formula) :
    tokens form (.operation op operands) =
      operationSymbols .tokens form op (operands.map (tokens form)) :=
  symbols_operation ..

/-- An operation of the infix form that is written like a call. -/
theorem operationSymbols_call (a : Alphabet α) {op : Operation} {parts : List (List α)}
    (hCall : ¬ (op.isOperator = true ∧ parts.length = 2)) :
    operationSymbols a .infixed op parts =
      a.opener :: a.operation op :: (parts.flatten ++ [a.closer]) := by
  simp only [operationSymbols]
  split
  · next hOperator => simp [hOperator] at hCall
  · rfl

/-- The symbols of the operands are among those of the operation. -/
theorem subset_operationSymbols (a : Alphabet α) (form : Notation) (op : Operation)
    {part : List α} {parts : List (List α)} (hPart : part ∈ parts) :
    part ⊆ operationSymbols a form op parts := by
  have hFlat : part ⊆ parts.flatten := fun _ hx => List.mem_flatten_of_mem hPart hx
  intro x hx
  have hxFlat := hFlat hx
  cases form with
  | plain => simp [operationSymbols, hxFlat]
  | prefixed => simp [operationSymbols, hxFlat]
  | postfixed => simp [operationSymbols, hxFlat]
  | infixed =>
      by_cases hCall : op.isOperator = true ∧ parts.length = 2
      · obtain ⟨hOperator, hLength⟩ := hCall
        obtain ⟨left, right, rfl⟩ := List.length_eq_two.mp hLength
        have hSide : x ∈ left ∨ x ∈ right := by simpa using hxFlat
        rcases hSide with hLeft | hRight
        · simp [operationSymbols, hOperator, hLeft]
        · simp [operationSymbols, hOperator, hRight]
      · rw [operationSymbols_call a hCall]
        simp [hxFlat]

theorem map_operationSymbols (g : α → β) (a : Alphabet α) (form : Notation) (op : Operation)
    (parts : List (List α)) :
    (operationSymbols a form op parts).map g =
      operationSymbols (a.map g) form op (parts.map (List.map g)) := by
  cases form with
  | plain => simp [operationSymbols, Alphabet.map]
  | prefixed => simp [operationSymbols, Alphabet.map]
  | postfixed => simp [operationSymbols, Alphabet.map]
  | infixed =>
      by_cases hCall : op.isOperator = true ∧ parts.length = 2
      · obtain ⟨hOperator, hLength⟩ := hCall
        obtain ⟨left, right, rfl⟩ := List.length_eq_two.mp hLength
        simp [operationSymbols, hOperator, Alphabet.map]
      · rw [operationSymbols_call a hCall, operationSymbols_call (a.map g) (by simpa using hCall)]
        simp [Alphabet.map]

/-- Symbols are replaced one by one. -/
theorem map_symbols (g : α → β) (a : Alphabet α) (form : Notation) (f : Formula) :
    (f.symbols a form).map g = f.symbols (a.map g) form := by
  induction f with
  | constant value => rfl
  | coordinate which => rfl
  | operation op operands ih =>
      rw [symbols_operation, symbols_operation, map_operationSymbols, List.map_map]
      exact congrArg _ (List.map_congr_left ih)

/-- The form with operations before their operands is the other one from back to front. -/
theorem symbols_prefixed (a : Alphabet α) (f : Formula) :
    f.symbols a .prefixed = (f.mirror.symbols a.flip .postfixed).reverse := by
  induction f with
  | constant value => rfl
  | coordinate which => rfl
  | operation op operands ih =>
      have hOperands : operands.map (symbols a .prefixed) =
          (operands.map fun f => f.mirror.symbols a.flip .postfixed).map List.reverse := by
        rw [List.map_map]
        exact List.map_congr_left ih
      rw [mirror_operation, symbols_operation, symbols_operation, hOperands]
      simp [operationSymbols, Alphabet.flip, List.reverse_flatten, Function.comp_def]

/-- The form with operations before their operands is the mirrored form of the mirror image. -/
theorem backward_tokens (f : Formula) :
    Token.backward (f.tokens .prefixed) = f.mirror.tokens .postfixed := by
  rw [Token.backward, tokens, symbols_prefixed, List.reverse_reverse, map_symbols]
  rfl

end Formula

end Formulas
