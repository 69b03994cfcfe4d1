import Formulas.Proofs.Formula.Shape
import Formulas.Proofs.Operation
import Formulas.Proofs.Reading.Steps

/-! The grammar of text in which operations may stand between, before or after their operands,
all mixed. -/
namespace Formulas.Reading

namespace Phrase

section

variable (strict : Bool)

mutual

/-- A leaf, or a body in brackets, which holds an operation if `strict`. -/
inductive Atom : List Token → Formula → Prop where
  | leaf {token : Token} {f : Formula} (hLeaf : token.leaf? = some f) : Atom [token] f
  | bracket {tokens : List Token} {f : Formula} (body : Body tokens f)
      (hInside : strict = true → f.isOperation = true) :
      Atom (.opener :: (tokens ++ [.closer])) f

/-- Atoms one after another. -/
inductive Atoms : List Token → List Formula → Prop where
  | nil : Atoms [] []
  | cons {tokens more : List Token} {f : Formula} {rest : List Formula} (first : Atom tokens f)
      (later : Atoms more rest) : Atoms (tokens ++ more) (f :: rest)

/-- An atom, or an operation with a fixed number of operands and as many terms behind it. -/
inductive Term : List Token → Formula → Prop where
  | atom {tokens : List Token} {f : Formula} (atom : Atom tokens f) : Term tokens f
  | call {op : Operation} {tokens : List Token} {operands : List Formula}
      (hArity : op.arity = .exactly operands.length) (terms : Terms tokens operands) :
      Term (.operation op :: tokens) (.operation op operands)

/-- Terms one after another. -/
inductive Terms : List Token → List Formula → Prop where
  | nil : Terms [] []
  | cons {tokens more : List Token} {f : Formula} {rest : List Formula} (first : Term tokens f)
      (later : Terms more rest) : Terms (tokens ++ more) (f :: rest)

/-- Terms with operations of two operands between them, which are applied from the left. -/
inductive Chain : List Token → Formula → Prop where
  | single {tokens : List Token} {f : Formula} (term : Term tokens f) : Chain tokens f
  | step {op : Operation} {tokens more : List Token} {f g : Formula} (chain : Chain tokens f)
      (hArity : op.arity = .exactly 2) (term : Term more g) :
      Chain (tokens ++ .operation op :: more) (.operation op [f, g])

/-- A chain, a mean of the terms behind it, or any operation of the atoms before it. -/
inductive Body : List Token → Formula → Prop where
  | chain {tokens : List Token} {f : Formula} (chain : Chain tokens f) : Body tokens f
  | mean {op : Operation} {tokens : List Token} {operands : List Formula}
      (hArity : op.arity = .variadic) (hSome : operands ≠ []) (terms : Terms tokens operands) :
      Body (.operation op :: tokens) (.operation op operands)
  | after {op : Operation} {tokens : List Token} {operands : List Formula}
      (hAdmits : op.admits operands.length = true) (atoms : Atoms tokens operands) :
      Body (tokens ++ [.operation op]) (.operation op operands)

end

end

variable {tokens : List Token} {f : Formula}

/-! Brackets around a leaf. -/

/-- Somewhere in the tokens, two brackets enclose a single leaf. -/
def EnclosesLeaf (tokens : List Token) : Prop :=
  ∃ token f, token.leaf? = some f ∧ [.opener, token, .closer] <:+: tokens

theorem EnclosesLeaf.mono {part whole : List Token} (hPart : part <:+: whole)
    (hEncloses : EnclosesLeaf part) : EnclosesLeaf whole := by
  obtain ⟨token, f, hLeaf, hInside⟩ := hEncloses
  exact ⟨token, f, hLeaf, hInside.trans hPart⟩

/-- Where no brackets enclose a leaf, what comes to a leaf is one token. -/
theorem Body.isOperation_or_leaf (body : Body true tokens f) :
    f.isOperation = true ∨ ∃ token, tokens = [token] ∧ token.leaf? = some f := by
  cases body with
  | mean hArity hSome terms => exact .inl rfl
  | after hAdmits atoms => exact .inl rfl
  | chain chain =>
      cases chain with
      | step chain hArity term => exact .inl rfl
      | single term =>
          cases term with
          | call hArity terms => exact .inl rfl
          | atom atom =>
              cases atom with
              | leaf hLeaf => exact .inr ⟨_, rfl, hLeaf⟩
              | bracket body hInside => exact .inl (hInside rfl)

mutual

/-- Where no brackets enclose a leaf, brackets hold nothing but operations. -/
theorem Atom.strict {tokens : List Token} {f : Formula} (atom : Atom false tokens f)
    (hBare : ¬ EnclosesLeaf tokens) : Atom true tokens f :=
  match atom with
  | .leaf hLeaf => .leaf hLeaf
  | @Atom.bracket _ tokens f body _ => by
      have hPart : tokens <:+: .opener :: (tokens ++ [.closer]) := ⟨[.opener], [.closer], by simp⟩
      have hBody := body.strict (mt (.mono hPart) hBare)
      refine .bracket hBody fun _ => ?_
      rcases hBody.isOperation_or_leaf with hOperation | ⟨token, rfl, hLeaf⟩
      · exact hOperation
      · exact absurd ⟨token, f, hLeaf, List.infix_rfl⟩ hBare

theorem Atoms.strict {tokens : List Token} {operands : List Formula}
    (atoms : Atoms false tokens operands) (hBare : ¬ EnclosesLeaf tokens) :
    Atoms true tokens operands :=
  match atoms with
  | .nil => .nil
  | .cons first later =>
      .cons (first.strict (mt (.mono (List.prefix_append ..).isInfix) hBare))
        (later.strict (mt (.mono (List.suffix_append ..).isInfix) hBare))

theorem Term.strict {tokens : List Token} {f : Formula} (term : Term false tokens f)
    (hBare : ¬ EnclosesLeaf tokens) : Term true tokens f :=
  match term with
  | .atom atom => .atom (atom.strict hBare)
  | .call hArity terms =>
      .call hArity (terms.strict (mt (.mono (List.suffix_cons ..).isInfix) hBare))

theorem Terms.strict {tokens : List Token} {operands : List Formula}
    (terms : Terms false tokens operands) (hBare : ¬ EnclosesLeaf tokens) :
    Terms true tokens operands :=
  match terms with
  | .nil => .nil
  | .cons first later =>
      .cons (first.strict (mt (.mono (List.prefix_append ..).isInfix) hBare))
        (later.strict (mt (.mono (List.suffix_append ..).isInfix) hBare))

theorem Chain.strict {tokens : List Token} {f : Formula} (chain : Chain false tokens f)
    (hBare : ¬ EnclosesLeaf tokens) : Chain true tokens f :=
  match chain with
  | .single term => .single (term.strict hBare)
  | @Chain.step _ op tokens more _ _ chain hArity term => by
      have hMore : more <:+: tokens ++ .operation op :: more :=
        ⟨tokens ++ [.operation op], [], by simp⟩
      exact .step (chain.strict (mt (.mono (List.prefix_append ..).isInfix) hBare))
        hArity (term.strict (mt (.mono hMore) hBare))

theorem Body.strict {tokens : List Token} {f : Formula} (body : Body false tokens f)
    (hBare : ¬ EnclosesLeaf tokens) : Body true tokens f :=
  match body with
  | .chain chain => .chain (chain.strict hBare)
  | .mean hArity hSome terms =>
      .mean hArity hSome
        (terms.strict (mt (.mono (List.suffix_cons ..).isInfix) hBare))
  | .after hAdmits atoms =>
      .after hAdmits (atoms.strict (mt (.mono (List.prefix_append ..).isInfix) hBare))

end

/-! Formulas of which every operation is written in a form of its own. -/

mutual

/-- A leaf, or an operation in brackets that stands between, before or after its operands. -/
inductive Mixed : Formula → List Token → Prop where
  | leaf {token : Token} {f : Formula} (hLeaf : token.leaf? = some f) : Mixed f [token]
  | bracket {tokens : List Token} {f : Formula} (bare : Bare f tokens) :
      Mixed f (.opener :: (tokens ++ [.closer]))

/-- The same operations without the outermost brackets. -/
inductive Bare : Formula → List Token → Prop where
  | between {op : Operation} {f g : Formula} {tokens more : List Token}
      (hArity : op.arity = .exactly 2) (left : Mixed f tokens) (right : Mixed g more) :
      Bare (.operation op [f, g]) (tokens ++ .operation op :: more)
  | before {op : Operation} {operands : List Formula} {parts : List (List Token)}
      (hParts : List.Forall₂ Mixed operands parts) :
      Bare (.operation op operands) (.operation op :: parts.flatten)
  | after {op : Operation} {operands : List Formula} {parts : List (List Token)}
      (hParts : List.Forall₂ Mixed operands parts) :
      Bare (.operation op operands) (parts.flatten ++ [.operation op])

end

variable {strict : Bool}

theorem Atoms.terms {tokens : List Token} {operands : List Formula}
    (atoms : Atoms strict tokens operands) : Terms strict tokens operands :=
  match atoms with
  | .nil => .nil
  | .cons first later => .cons (.atom first) later.terms

theorem atoms_of_forall₂ {R : Formula → List Token → Prop} {parts : List (List Token)}
    (hAtoms : ∀ f ∈ operands, ∀ tokens, R f tokens → Atom strict tokens f)
    (hParts : List.Forall₂ R operands parts) : Atoms strict parts.flatten operands := by
  induction hParts with
  | nil => exact .nil
  | cons hFirst hRest ih =>
      exact .cons (hAtoms _ (List.mem_cons_self ..) _ hFirst)
        (ih fun f hf => hAtoms f (List.mem_cons_of_mem _ hf))

/-- An operation that is written so is a body, if its operands are atoms. -/
theorem Bare.body {op : Operation} {operands : List Formula}
    (bare : Bare (.operation op operands) tokens) (hAdmits : op.admits operands.length = true)
    (hAtoms : ∀ f ∈ operands, ∀ tokens, Mixed f tokens → Atom strict tokens f) :
    Body strict tokens (.operation op operands) := by
  cases bare with
  | between hArity left right =>
      have hLeft := hAtoms _ (by simp) _ left
      have hRight := hAtoms _ (by simp) _ right
      exact .chain (.step (.single (.atom hLeft)) hArity (.atom hRight))
  | after hParts => exact .after hAdmits (atoms_of_forall₂ hAtoms hParts)
  | before hParts =>
      have hTerms := (atoms_of_forall₂ hAtoms hParts).terms
      cases hArity : op.arity with
      | exactly count =>
          rw [← (Operation.admits_of_exactly hArity).mp hAdmits] at hArity
          exact .chain (.single (.call hArity hTerms))
      | variadic =>
          have hSome : operands ≠ [] :=
            List.ne_nil_of_length_pos ((Operation.admits_of_variadic hArity).mp hAdmits)
          exact .mean hArity hSome hTerms

theorem Mixed.atom (mixed : Mixed f tokens) (hWellFormed : f.isWellFormed = true) :
    Atom strict tokens f := by
  induction f generalizing tokens with
  | constant value =>
      cases mixed with
      | leaf hLeaf => exact .leaf hLeaf
      | bracket bare => cases bare
  | coordinate which =>
      cases mixed with
      | leaf hLeaf => exact .leaf hLeaf
      | bracket bare => cases bare
  | operation op operands ih =>
      obtain ⟨hAdmits, hOperands⟩ := Formula.isWellFormed_operation.mp hWellFormed
      cases mixed with
      | leaf hLeaf => exact .leaf hLeaf
      | bracket bare =>
          exact .bracket (bare.body hAdmits fun f hf _ mixed => ih f hf mixed (hOperands f hf))
            fun _ => rfl

/-- All that is written so is a body, also in strict reading. -/
theorem Mixed.body (mixed : Mixed f tokens) (hWellFormed : f.isWellFormed = true) :
    Body strict tokens f :=
  .chain (.single (.atom (mixed.atom hWellFormed)))

theorem Bare.body_of_isWellFormed (bare : Bare f tokens) (hWellFormed : f.isWellFormed = true) :
    Body strict tokens f := by
  cases f with
  | constant value => cases bare
  | coordinate which => cases bare
  | operation op operands =>
      obtain ⟨hAdmits, hOperands⟩ := Formula.isWellFormed_operation.mp hWellFormed
      exact bare.body hAdmits fun f hf _ mixed => mixed.atom (hOperands f hf)

end Phrase

end Formulas.Reading
