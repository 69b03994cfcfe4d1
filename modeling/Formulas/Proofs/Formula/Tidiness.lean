import Formulas.Proofs.Formula.Scan
import Formulas.Proofs.Formula.Shape

/-! Tidy texts. In a tidy text no group is empty when it closes, and every operation takes
all formulas of its group. The spelling of every well-formed formula is tidy, and tidiness
does not depend on how numbers are spelled. -/
namespace Formulas

/-- The part that a token has in the shape of a text. -/
inductive Mark where
  | opener
  | closer
  | operation (op : Operation)
  | leaf
  deriving DecidableEq

namespace Mark

/-- The other bracket; all other marks stay. -/
def flip : Mark → Mark
  | .opener => .closer
  | .closer => .opener
  | mark => mark

/-- Counts the formulas of the current group and of the groups around it. An operation
wants as many as it admits, and a group that closes must have come to one. -/
def areTidy : List Nat → List Mark → Bool
  | _, [] => true
  | counts, .opener :: rest => areTidy (0 :: counts) rest
  | n :: counts, .leaf :: rest => areTidy ((n + 1) :: counts) rest
  | n :: counts, .operation op :: rest => op.admits n && areTidy (1 :: counts) rest
  | n :: outer :: counts, .closer :: rest => n = 1 && areTidy ((outer + 1) :: counts) rest
  | _, _ => false

end Mark

namespace Token

def mark : Token → Mark
  | .opener => .opener
  | .closer => .closer
  | .operation op => .operation op
  | _ => .leaf

/-- The tokens in the order in which operations follow their operands. -/
def forward (form : Notation) (tokens : List Token) : List Token :=
  if form = .prefixed then backward tokens else tokens

/-- Every group closes with the one formula of an operation that took all the others. -/
def areTidy (form : Notation) (tokens : List Token) : Bool :=
  Mark.areTidy [0] ((forward form tokens).map mark)

/-- A piece that is a number literal, as its number is written; all other pieces stay. -/
def respell (piece : String) : String :=
  match ofText piece with
  | .number value => value.text
  | _ => piece

theorem mark_flip (token : Token) : token.flip.mark = token.mark.flip := by
  cases token <;> rfl

theorem forward_forward (form : Notation) (tokens : List Token) :
    forward form (forward form tokens) = tokens := by
  unfold forward
  split_ifs
  · exact backward_backward tokens
  · rfl

/-- Being tidy is a matter of marks. -/
theorem areTidy_congr {form : Notation} {tokens tokens' : List Token}
    (hMarks : tokens.map mark = tokens'.map mark) :
    areTidy form tokens = areTidy form tokens' := by
  have hBackward (tokens : List Token) :
      (backward tokens).map mark = (tokens.map mark).reverse.map Mark.flip := by
    simp [backward, Function.comp_def, mark_flip]
  unfold areTidy forward
  split_ifs
  · rw [hBackward, hBackward, hMarks]
  · rw [hMarks]

/-- The text that a token is read from, unless it is one of many or of none. -/
def spelling? : Token → Option String
  | .opener => some "("
  | .closer => some ")"
  | .operation op => some op.symbol
  | .coordinate which => some which.name
  | .number value => some value.text
  | _ => none

/-- A piece that stands for a bracket, an operation or a coordinate is the text of it. -/
theorem eq_of_ofText {piece text : String} (hSpelling : (ofText piece).spelling? = some text)
    (hOther : ∀ value, ofText piece ≠ .number value) : piece = text := by
  rcases ofText_cases piece with ⟨op, rfl⟩ | ⟨which, rfl⟩ | rfl | rfl | hLiteral
  · rw [ofText_symbol] at hSpelling
    exact Option.some.inj hSpelling
  · rw [ofText_name] at hSpelling
    exact Option.some.inj hSpelling
  · rw [ofText_opener] at hSpelling
    exact Option.some.inj hSpelling
  · rw [ofText_closer] at hSpelling
    exact Option.some.inj hSpelling
  · rw [hLiteral] at hSpelling hOther
    rcases ofLiteral_cases piece with ⟨value, hRead⟩ | hRead | hRead
    · exact absurd hRead (hOther value)
    · simp [hRead, spelling?] at hSpelling
    · simp [hRead, spelling?] at hSpelling

theorem respell_of_spelling? {piece text : String}
    (hSpelling : (ofText piece).spelling? = some text) : respell piece = text := by
  unfold respell
  split
  · next value hPiece =>
      rw [hPiece] at hSpelling
      exact Option.some.inj hSpelling
  · next hOther => exact eq_of_ofText hSpelling fun value hPiece => hOther value hPiece

/-- The text of a constant is never a bracket or the symbol of an operation. -/
theorem mark_ofText_text (c : Constant) : (ofText c.text).mark = .leaf := by
  cases hReadable : c.isReadable with
  | true => exact congrArg mark (ofText_text hReadable)
  | false =>
      rcases ofText_text_of_not_readable hReadable with ⟨n, -, hText⟩ | ⟨x, -, hText⟩
      · exact congrArg mark hText
      · exact congrArg mark hText

/-- A piece and its other spelling have the same mark. -/
theorem mark_ofText_respell (piece : String) :
    (ofText (respell piece)).mark = (ofText piece).mark := by
  unfold respell
  split
  · next value hPiece => rw [mark_ofText_text, hPiece]; rfl
  · rfl

end Token

/-- Every part of a formula as its mark. -/
def Alphabet.marks : Alphabet Mark :=
  ⟨.opener, .closer, .operation, fun _ => .leaf, fun _ => .leaf⟩

namespace Formula

/-- A well-formed formula counts as one formula of the group that it stands in. -/
theorem areTidy_symbols {f : Formula} (hWellFormed : f.isWellFormed = true) (n : Nat)
    (counts : List Nat) (rest : List Mark) :
    Mark.areTidy (n :: counts) (f.symbols .marks .postfixed ++ rest) =
      Mark.areTidy ((n + 1) :: counts) rest := by
  induction f generalizing n counts rest with
  | constant value => rfl
  | coordinate which => rfl
  | operation op operands ih =>
      obtain ⟨hAdmits, hOperands⟩ := isWellFormed_operation.mp hWellFormed
      have hBody (parts : List Formula) (hParts : ∀ f ∈ parts, f ∈ operands) (m : Nat)
          (more : List Mark) :
          Mark.areTidy (m :: n :: counts)
              ((parts.map (symbols .marks .postfixed)).flatten ++ more) =
            Mark.areTidy ((m + parts.length) :: n :: counts) more := by
        induction parts generalizing m with
        | nil => rfl
        | cons f parts ihParts =>
            have hFirst := hParts f (List.mem_cons_self ..)
            rw [List.map_cons, List.flatten_cons, List.append_assoc,
              ih f hFirst (hOperands f hFirst),
              ihParts fun g hg => hParts g (List.mem_cons_of_mem f hg)]
            simp [Nat.add_comm 1, Nat.add_assoc]
      have hGroup := hBody operands (fun f hf => hf) 0 (.operation op :: .closer :: rest)
      rw [Nat.zero_add] at hGroup
      rw [symbols_operation, operationSymbols, List.cons_append, List.append_assoc]
      exact hGroup.trans (by simp [Mark.areTidy, hAdmits])

/-- The formula in the order in which operations follow their operands. -/
def oriented (form : Notation) (f : Formula) : Formula :=
  if form = .prefixed then f.mirror else f

theorem isWellFormed_oriented (form : Notation) (f : Formula) :
    (f.oriented form).isWellFormed = f.isWellFormed := by
  unfold oriented
  split_ifs <;> simp

theorem forward_tokens {form : Notation} (hForm : form.allowsWaiting = false) (f : Formula) :
    Token.forward form (f.tokens form) = (f.oriented form).tokens .postfixed := by
  cases form with
  | plain => simp [Notation.allowsWaiting] at hForm
  | infixed => simp [Notation.allowsWaiting] at hForm
  | prefixed => exact backward_tokens f
  | postfixed => rfl

/-- Pieces that stand for the tokens of a formula are respelled as the text of the formula. -/
theorem map_respell_of_tokens {form : Notation} {f : Formula} {pieces : List String}
    (hTokens : pieces.map Token.ofText = f.tokens form) :
    pieces.map Token.respell = f.texts form := by
  have hSpelling : (pieces.map fun piece => (Token.ofText piece).spelling?) =
      (f.texts form).map some := by
    have hAlphabet : Alphabet.tokens.map Token.spelling? = Alphabet.texts.map some := rfl
    have hSymbols := congrArg (List.map Token.spelling?) hTokens
    rw [tokens, map_symbols, hAlphabet, ← map_symbols, List.map_map] at hSymbols
    exact hSymbols
  generalize f.texts form = spelled at hSpelling
  clear hTokens
  induction pieces generalizing spelled with
  | nil => simpa using hSpelling
  | cons piece pieces ih =>
      cases spelled with
      | nil => simp at hSpelling
      | cons text spelled =>
          obtain ⟨hFirst, hLater⟩ := List.cons.inj hSpelling
          rw [List.map_cons, Token.respell_of_spelling? hFirst, ih spelled hLater]

/-- Pieces that are respelled as the text of a formula have the marks of the formula. -/
theorem map_mark_of_respell {form : Notation} {f : Formula} {pieces : List String}
    (hPieces : pieces.map Token.respell = f.texts form) :
    (pieces.map Token.ofText).map Token.mark = (f.tokens form).map Token.mark := by
  have hAlphabet : Alphabet.texts.map (Token.mark ∘ Token.ofText) =
      Alphabet.tokens.map Token.mark := by
    ext part
    · decide
    · decide
    · exact congrArg Token.mark (Token.ofText_symbol part)
    · exact congrArg Token.mark (Token.ofText_name part)
    · exact Token.mark_ofText_text part
  have hMarks : pieces.map (fun piece => (Token.ofText (Token.respell piece)).mark) =
      (f.tokens form).map Token.mark := by
    have hSymbols := congrArg (List.map (Token.mark ∘ Token.ofText)) hPieces
    rw [texts, map_symbols, hAlphabet, ← map_symbols, List.map_map] at hSymbols
    exact hSymbols
  simpa [Token.mark_ofText_respell, Function.comp_def] using hMarks

/-- The tokens of a well-formed formula are tidy. -/
theorem areTidy_tokens {form : Notation} (hForm : form.allowsWaiting = false) {f : Formula}
    (hWellFormed : f.isWellFormed = true) : Token.areTidy form (f.tokens form) = true := by
  have hMarks : ((f.oriented form).tokens .postfixed).map Token.mark =
      (f.oriented form).symbols .marks .postfixed := map_symbols ..
  have hCounts := areTidy_symbols (f := f.oriented form) (by rwa [isWellFormed_oriented]) 0 [] []
  rw [Token.areTidy, forward_tokens hForm, hMarks]
  rw [List.append_nil] at hCounts
  exact hCounts

end Formula

end Formulas
