import Formulas.Proofs.Formula.Tidiness
import Formulas.Proofs.Formula.Traversal
import Formulas.Proofs.Reading.Balance
import Mathlib.Algebra.BigOperators.Ring.List
import Mathlib.Data.List.Infix

/-! The texts of one formula as sequences of its nodes. Without its brackets the form with
operations behind their operands is the plain one, and the form with operations in front has the
nodes in the order of the stack. In each form with brackets an operation has one pair of them, and
between the two its symbol stands somewhere among its operands; what the brackets hold follows
from this alone. -/
namespace Formulas

namespace Token

variable {opens closes : Token} {tokens front back : List Token} {parts : List (List Token)}

theorem nested_of_notMem (hOpens : opens ∉ tokens) (hCloses : closes ∉ tokens) :
    Nested opens closes tokens := by
  refine ⟨fun front hFront => ?_, ?_⟩
  · rw [List.count_eq_zero_of_not_mem fun hMem => hCloses (hFront.subset hMem)]
    exact Nat.zero_le _
  · rw [List.count_eq_zero_of_not_mem hOpens, List.count_eq_zero_of_not_mem hCloses]

/-- What is balanced leaves nothing open to what follows. -/
theorem Nested.append (hFront : Nested opens closes front) (hBack : Nested opens closes back) :
    Nested opens closes (front ++ back) := by
  obtain ⟨hFronts, hFrontTotal⟩ := hFront
  obtain ⟨hBacks, hBackTotal⟩ := hBack
  refine ⟨fun read hRead => ?_, ?total⟩
  case total => rw [List.count_append, List.count_append, hFrontTotal, hBackTotal]
  rcases List.prefix_or_prefix_of_prefix hRead (List.prefix_append front back) with hIn | hBehind
  · exact hFronts read hIn
  · obtain ⟨rest, rfl⟩ := hBehind
    have hRest := hBacks rest ((List.prefix_append_right_inj front).mp hRead)
    rw [List.count_append, List.count_append]
    omega

theorem Nested.flatten (hParts : ∀ part ∈ parts, Nested opens closes part) :
    Nested opens closes parts.flatten := by
  induction parts with
  | nil => exact nested_of_notMem (List.not_mem_nil) (List.not_mem_nil)
  | cons part parts ih =>
      obtain ⟨hPart, hRest⟩ := List.forall_mem_cons.mp hParts
      exact hPart.append (ih hRest)

/-- A pair of brackets around what is balanced. -/
theorem Nested.bracket (hOther : opens ≠ closes) (hTokens : Nested opens closes tokens) :
    Nested opens closes (opens :: (tokens ++ [closes])) := by
  obtain ⟨hFronts, hTotal⟩ := hTokens
  refine ⟨fun read hRead => ?_, ?_⟩
  · rcases List.prefix_cons_iff.mp hRead with rfl | ⟨rest, rfl, hRest⟩
    · exact le_rfl
    rw [List.count_cons_self, List.count_cons_of_ne hOther]
    rcases List.prefix_concat_iff.mp hRest with rfl | hInner
    · simp [hTotal, hOther.symm]
    · exact (hFronts rest hInner).trans (Nat.le_succ _)
  · simp [hTotal, hOther, hOther.symm]

/-- The pieces of a text that are no brackets. -/
def withoutBrackets (pieces : List String) : List String :=
  pieces.filter fun piece => piece ≠ "(" ∧ piece ≠ ")"

theorem withoutBrackets_append (front back : List String) :
    withoutBrackets (front ++ back) = withoutBrackets front ++ withoutBrackets back :=
  List.filter_append ..

theorem withoutBrackets_bracket (pieces : List String) :
    withoutBrackets ("(" :: (pieces ++ [")"])) = withoutBrackets pieces := by
  simp [withoutBrackets]

/-- A bracket is no run of characters. -/
theorem ne_bracket_of_isRun {piece : String} (hRun : IsRun piece.toList) :
    piece ≠ "(" ∧ piece ≠ ")" := by
  constructor
  · rintro rfl
    exact absurd hRun (by decide)
  · rintro rfl
    exact absurd hRun (by decide)

end Token

namespace Alphabet

variable {α : Type}

/-- What the root of a formula stands for, without its operands. -/
def root (a : Alphabet α) : Formula → α
  | .constant value => a.constant value
  | .coordinate which => a.coordinate which
  | .operation op _ => a.operation op

end Alphabet

namespace Formula

variable {α : Type} {a : Alphabet α} {form : Notation} {f g : Formula}

/-- The plain form has one symbol for each node. -/
theorem symbols_plain (a : Alphabet α) (f : Formula) :
    f.symbols a .plain = f.postorder.map a.root := by
  induction f with
  | constant value => rfl
  | coordinate which => rfl
  | operation op operands ih =>
      have hOperands : operands.map (symbols a .plain) =
          (operands.map postorder).map (List.map a.root) := by
        rw [List.map_map]
        exact List.map_congr_left ih
      rw [symbols_operation, hOperands, postorder, arranged_operation, List.map_append,
        List.map_flatten]
      rfl

/-- Between the brackets of an operation its symbol stands somewhere among its operands. -/
theorem exists_operationSymbols (a : Alphabet α) (hForm : form ≠ .plain) (op : Operation)
    (parts : List (List α)) : ∃ front back, front ++ back = parts ∧
      operationSymbols a form op parts =
        a.opener :: (front.flatten ++ a.operation op :: back.flatten ++ [a.closer]) := by
  cases form with
  | plain => exact absurd rfl hForm
  | prefixed => exact ⟨[], parts, rfl, rfl⟩
  | postfixed => exact ⟨parts, [], List.append_nil parts, by simp [operationSymbols]⟩
  | infixed =>
      by_cases hCall : op.isOperator = true ∧ parts.length = 2
      · obtain ⟨hOperator, hTwo⟩ := hCall
        obtain ⟨left, right, rfl⟩ := List.length_eq_two.mp hTwo
        exact ⟨[left], [right], rfl, by simp [operationSymbols, hOperator]⟩
      · exact ⟨[], parts, rfl, operationSymbols_call a hCall⟩

/-- Any symbols in a form with brackets are counted by node, and with a pair of brackets for each
operation. -/
theorem countP_symbols (a : Alphabet α) (hForm : form ≠ .plain) (test : α → Bool) (f : Formula) :
    (f.symbols a form).countP test = (f.nodes .depthFirst).countP (test ∘ a.root) +
      f.kinds.length * [a.opener, a.closer].countP test := by
  induction f with
  | constant value =>
      rw [nodes_depthFirst, kinds_of_isOperation_eq_false rfl, List.length_nil, Nat.zero_mul]
      rfl
  | coordinate which =>
      rw [nodes_depthFirst, kinds_of_isOperation_eq_false rfl, List.length_nil, Nat.zero_mul]
      rfl
  | operation op operands ih =>
      obtain ⟨front, back, hParts, hSymbols⟩ :=
        exists_operationSymbols a hForm op (operands.map (symbols a form))
      have hOperands : front.flatten.countP test + back.flatten.countP test =
          (operands.flatMap (nodes .depthFirst)).countP (test ∘ a.root) +
            (operands.flatMap kinds).length * [a.opener, a.closer].countP test := by
        rw [← List.countP_append, ← List.flatten_append, hParts, List.countP_flatten, List.map_map,
          List.countP_flatMap, List.length_flatMap, ← List.sum_map_mul_right, ← List.sum_map_add]
        exact congrArg List.sum (List.map_congr_left ih)
      rw [symbols_operation, hSymbols, nodes_depthFirst, kinds_operation,
        show (operation op operands).operands = operands from rfl]
      have hRoot : (test ∘ a.root) (operation op operands) = test (a.operation op) := rfl
      simp only [List.countP_cons, List.countP_append, List.countP_nil, hRoot,
        List.length_cons, Nat.succ_mul] at hOperands ⊢
      omega

/-- The symbols of an operand are a part of what the brackets of the operation hold. -/
theorem symbols_within_operation (a : Alphabet α) (hForm : form ≠ .plain) {op : Operation}
    {operands : List Formula} (hOperand : f ∈ operands) :
    f.symbols a form <:+: (operation op operands).symbols a form := by
  obtain ⟨front, back, hParts, hSymbols⟩ :=
    exists_operationSymbols a hForm op (operands.map (symbols a form))
  have hMem : f.symbols a form ∈ front ++ back := hParts ▸ List.mem_map_of_mem hOperand
  rw [symbols_operation, hSymbols]
  rcases List.mem_append.mp hMem with hFront | hBack
  · refine (List.infix_of_mem_flatten hFront).trans ⟨[a.opener], ?_, ?_⟩
    · exact a.operation op :: back.flatten ++ [a.closer]
    · simp
  · refine (List.infix_of_mem_flatten hBack).trans ⟨?_, [a.closer], ?_⟩
    · exact a.opener :: (front.flatten ++ [a.operation op])
    · simp

/-- The symbols of every node are a part of those of the whole formula. -/
theorem symbols_within (a : Alphabet α) (hForm : form ≠ .plain) (hNode : g ∈ f.nodes .depthFirst) :
    g.symbols a form <:+: f.symbols a form := by
  induction f with
  | constant value => rw [eq_of_mem_nodes rfl hNode]
  | coordinate which => rw [eq_of_mem_nodes rfl hNode]
  | operation op operands ih =>
      rcases mem_nodes_operation.mp hNode with rfl | ⟨f, hf, hNode⟩
      · exact List.infix_rfl
      · exact (ih f hf hNode).trans (symbols_within_operation a hForm hf)

/-- Between the brackets of an operation everything is balanced if its operands are. -/
theorem exists_inner_texts (hForm : form ≠ .plain) (op : Operation) {operands : List Formula}
    (hOperands : ∀ f ∈ operands, Token.Balanced ((f.texts form).map Token.ofText)) :
    ∃ inner, texts form (operation op operands) = "(" :: (inner ++ [")"]) ∧
      Token.Balanced (inner.map Token.ofText) := by
  obtain ⟨front, back, hParts, hTexts⟩ :=
    exists_operationSymbols .texts hForm op (operands.map (texts form))
  have hBalanced : ∀ part ∈ front ++ back, Token.Balanced (part.map Token.ofText) := by
    rw [hParts]
    exact List.forall_mem_map.mpr hOperands
  obtain ⟨hFront, hBack⟩ := List.forall_mem_append.mp hBalanced
  have hSymbol : Token.Balanced [Token.ofText op.symbol] := by
    rw [Token.ofText_symbol]
    exact Token.nested_of_notMem (by simp) (by simp)
  refine ⟨front.flatten ++ op.symbol :: back.flatten, ?_, ?_⟩
  · rw [texts, symbols_operation]
    exact hTexts
  · rw [List.map_append, List.map_cons, List.map_flatten, List.map_flatten]
    exact (Token.Nested.flatten (List.forall_mem_map.mpr hFront)).append
      (hSymbol.append (.flatten (List.forall_mem_map.mpr hBack)))

/-- No leaf is read as a bracket. -/
theorem balanced_ofText {piece : String} (hLeaf : (Token.ofText piece).mark = .leaf) :
    Token.Balanced [Token.ofText piece] := by
  refine Token.nested_of_notMem ?_ ?_
  · rw [List.mem_singleton]
    exact fun hSame => Mark.noConfusion (hSame ▸ hLeaf)
  · rw [List.mem_singleton]
    exact fun hSame => Mark.noConfusion (hSame ▸ hLeaf)

theorem balanced_texts (hForm : form ≠ .plain) (f : Formula) :
    Token.Balanced ((f.texts form).map Token.ofText) := by
  induction f with
  | constant value => exact balanced_ofText (Token.mark_ofText_text value)
  | coordinate which => exact balanced_ofText (congrArg Token.mark (Token.ofText_name which))
  | operation op operands ih =>
      obtain ⟨inner, hTexts, hInner⟩ := exists_inner_texts hForm op ih
      rw [hTexts, List.map_cons, List.map_append, List.map_singleton, Token.ofText_opener,
        Token.ofText_closer]
      exact Token.Nested.bracket (by decide) hInner

theorem isRun_root (f : Formula) : Token.IsRun (Alphabet.texts.root f).toList := by
  cases f with
  | constant value => exact Constant.isRun_text value
  | coordinate which => exact Token.isRun_name which
  | operation op operands => exact Token.isRun_symbol op

/-- The pieces that stand for nodes are no brackets. -/
theorem withoutBrackets_root (f : Formula) :
    Token.withoutBrackets [Alphabet.texts.root f] = [Alphabet.texts.root f] := by
  simp [Token.withoutBrackets, Token.ne_bracket_of_isRun (isRun_root f)]

/-- Brackets are taken away from all operands. -/
theorem withoutBrackets_operands {operands : List Formula} {parts : Formula → List String}
    (hOperands : ∀ f ∈ operands, Token.withoutBrackets (f.texts form) = parts f) :
    Token.withoutBrackets (operands.map (texts form)).flatten = (operands.map parts).flatten := by
  rw [Token.withoutBrackets, List.filter_flatten, List.map_map]
  exact congrArg List.flatten (List.map_congr_left hOperands)

/-- Without brackets the operations behind their operands are the plain form. -/
theorem withoutBrackets_postfixed (f : Formula) :
    Token.withoutBrackets (f.texts .postfixed) = f.texts .plain := by
  induction f with
  | constant value => exact withoutBrackets_root (constant value)
  | coordinate which => exact withoutBrackets_root (coordinate which)
  | operation op operands ih =>
      have hTexts : texts .postfixed (operation op operands) =
          "(" :: ((operands.map (texts .postfixed)).flatten ++ [op.symbol] ++ [")"]) := by
        rw [texts, symbols_operation]
        simp [operationSymbols, Alphabet.texts]
      rw [hTexts, Token.withoutBrackets_bracket, Token.withoutBrackets_append,
        withoutBrackets_operands ih, texts, symbols_operation]
      exact congrArg _ (withoutBrackets_root (operation op operands))

/-- Without brackets the operations in front of their operands come in the order of the stack. -/
theorem withoutBrackets_prefixed (f : Formula) :
    Token.withoutBrackets (f.texts .prefixed) =
      (f.nodes .depthFirst).map Alphabet.texts.root := by
  induction f with
  | constant value =>
      rw [nodes_depthFirst]
      exact withoutBrackets_root (constant value)
  | coordinate which =>
      rw [nodes_depthFirst]
      exact withoutBrackets_root (coordinate which)
  | operation op operands ih =>
      have hTexts : texts .prefixed (operation op operands) =
          "(" :: ([op.symbol] ++ (operands.map (texts .prefixed)).flatten ++ [")"]) := by
        rw [texts, symbols_operation]
        rfl
      rw [hTexts, Token.withoutBrackets_bracket, Token.withoutBrackets_append,
        withoutBrackets_operands ih, nodes_depthFirst, List.map_cons, List.map_flatMap]
      exact congrArg (· ++ _) (withoutBrackets_root (operation op operands))

/-- In the text of a formula the brackets are balanced, there is one pair of them for each operation
and one other piece for each node. An operation anywhere in the formula is a part of the text that
starts and ends with a pair of brackets, and what stands between them is balanced. -/
structure IsBracketed (form : Notation) (f : Formula) : Prop where
  balanced : Token.Balanced (Token.scan (f.render form))
  count_opener : (Token.split (f.render form)).count "(" = f.operations.length
  count_closer : (Token.split (f.render form)).count ")" = f.operations.length
  length_withoutBrackets : (Token.withoutBrackets (Token.split (f.render form))).length = f.size
  operation (g : Formula) (hOperation : g ∈ f.operations) :
    Token.split (g.render form) <:+: Token.split (f.render form) ∧
      ∃ inner, Token.split (g.render form) = "(" :: (inner ++ [")"]) ∧
        Token.Balanced (inner.map Token.ofText)

theorem length_operations (f : Formula) : f.operations.length = f.kinds.length := by
  rw [operations, kinds, ← List.countP_eq_length_filter, List.length_filterMap_eq_countP]
  apply List.countP_congr
  intro node _
  cases node <;> simp [isOperation]

/-- No node is counted as a bracket. -/
theorem count_texts {bracket : String} (hForm : form ≠ .plain) (f : Formula)
    (hBracket : bracket = "(" ∨ bracket = ")") :
    (f.texts form).count bracket = f.operations.length := by
  have hRoots : (f.nodes .depthFirst).countP ((· == bracket) ∘ Alphabet.texts.root) = 0 := by
    rw [List.countP_eq_zero]
    intro node _
    have hNode := Token.ne_bracket_of_isRun (isRun_root node)
    rcases hBracket with rfl | rfl
    · simpa using hNode.1
    · simpa using hNode.2
  have hPair : [Alphabet.texts.opener, Alphabet.texts.closer].countP (· == bracket) = 1 := by
    rcases hBracket with rfl | rfl <;> decide
  rw [List.count, texts, countP_symbols .texts hForm, hRoots, hPair, length_operations]
  omega

theorem length_withoutBrackets_texts (hForm : form ≠ .plain) (f : Formula) :
    (Token.withoutBrackets (f.texts form)).length = f.size := by
  have hRoots : (f.nodes .depthFirst).countP ((fun piece => decide (piece ≠ "(" ∧ piece ≠ ")")) ∘
      Alphabet.texts.root) = (f.nodes .depthFirst).length := by
    rw [List.countP_eq_length]
    intro node _
    exact decide_eq_true (Token.ne_bracket_of_isRun (isRun_root node))
  rw [Token.withoutBrackets, ← List.countP_eq_length_filter, texts, countP_symbols .texts hForm,
    hRoots, length_nodes]
  exact Nat.add_zero _

theorem isBracketed_of_ne_plain (hForm : form ≠ .plain) (f : Formula) : f.IsBracketed form where
  balanced := by
    rw [Token.scan, split_render]
    exact balanced_texts hForm f
  count_opener := by
    rw [split_render]
    exact count_texts hForm f (.inl rfl)
  count_closer := by
    rw [split_render]
    exact count_texts hForm f (.inr rfl)
  length_withoutBrackets := by
    rw [split_render]
    exact length_withoutBrackets_texts hForm f
  operation g hOperation := by
    obtain ⟨hNode, hg⟩ := List.mem_filter.mp hOperation
    rw [split_render, split_render]
    refine ⟨symbols_within .texts hForm hNode, ?_⟩
    cases g with
    | constant value => exact Bool.noConfusion hg
    | coordinate which => exact Bool.noConfusion hg
    | operation op operands =>
        exact exists_inner_texts hForm op fun f _ => balanced_texts hForm f

/-- The four texts of a formula hold the same symbols. In the plain text they come in postorder, and
so they do where operations stand behind their operands; where operations stand in front they come
in the order of the stack. All texts but the plain one have balanced brackets, one pair for each
operation. -/
theorem split_render_linear (f : Formula) :
    Token.split (f.render .plain) = f.postorder.map Alphabet.texts.root ∧
      Token.withoutBrackets (Token.split (f.render .postfixed)) = Token.split (f.render .plain) ∧
      Token.withoutBrackets (Token.split (f.render .prefixed)) =
        (f.nodes .depthFirst).map Alphabet.texts.root ∧
      f.IsBracketed .prefixed ∧ f.IsBracketed .postfixed ∧ f.IsBracketed .infixed := by
  simp only [split_render]
  exact ⟨symbols_plain .texts f, withoutBrackets_postfixed f, withoutBrackets_prefixed f,
    isBracketed_of_ne_plain (by decide) f, isBracketed_of_ne_plain (by decide) f,
    isBracketed_of_ne_plain (by decide) f⟩

end Formula

end Formulas
