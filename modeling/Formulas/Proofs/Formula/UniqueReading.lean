import Formulas.Proofs.Constant.Exact
import Formulas.Proofs.Formula.Scan

/-! The text of a formula in a form with brackets determines the formula up to the kinds of
its constants, even if its operations have wrong numbers of operands. A machine that keeps
one frame for each open bracket recovers the formula in all three forms: it does not matter
where in the bracket the operation stands. -/
namespace Formulas

namespace Constant

/-- A constant that has a text of its own: an integer within the digit limit, or a real that
is not undefined. -/
def isWritable : Constant → Bool
  | .integer n => Numeral.isWritable n.natAbs
  | .real (.nan _) => false
  | .real _ => true

end Constant

namespace Token

/-- The leaf that a token was written for, infinities included. -/
def writtenLeaf? : Token → Option Formula
  | .coordinate which => some (.coordinate which)
  | .number value => some (.constant value)
  | .unknown text =>
    if text = "inf" then some (.constant (.real (.infinite false)))
    else if text = "-inf" then some (.constant (.real (.infinite true)))
    else none
  | _ => none

/-- The text of a constant determines its normal form. -/
theorem writtenLeaf?_ofText_text {c : Constant} (hWritable : c.isWritable = true) :
    (ofText c.text).writtenLeaf? = some (.constant c.normal) := by
  cases hReadable : c.isReadable with
  | true => rw [ofText_text hReadable, writtenLeaf?]
  | false =>
      rcases ofText_text_of_not_readable hReadable with ⟨n, rfl, -⟩ | ⟨x, rfl, hText⟩
      · exact absurd hWritable (Bool.eq_false_iff.mp hReadable)
      · rw [hText]
        cases x with
        | nan label => exact Bool.noConfusion hWritable
        | infinite negative => cases negative <;> rfl
        | finite negative mantissa exponent hCanonical => exact Bool.noConfusion hReadable

end Token

/-- Every part as the token that its text stands for. -/
def Alphabet.readTexts : Alphabet Token :=
  ⟨.opener, .closer, .operation, .coordinate, fun value => Token.ofText value.text⟩

/-- What a bracket holds so far: its operation, if it has been met, and the operands. -/
structure Frame where
  operation? : Option Operation
  operands : List Formula

namespace Frame

def empty : Frame := ⟨none, []⟩

def add (frame : Frame) (f : Formula) : Frame :=
  { frame with operands := frame.operands ++ [f] }

/-- The formula that a complete bracket holds. -/
def formula? (frame : Frame) : Option Formula :=
  frame.operation?.map (Formula.operation · frame.operands)

/-- One step over a token, with the frames of the open brackets, innermost first. -/
def step : List Frame → Token → Option (List Frame)
  | frames, .opener => some (empty :: frames)
  | frame :: parent :: outer, .closer => frame.formula?.map fun f => parent.add f :: outer
  | frame :: outer, .operation op => some ({ frame with operation? := some op } :: outer)
  | frame :: outer, token => token.writtenLeaf?.map fun f => frame.add f :: outer
  | [], _ => none

variable {frame parent : Frame} {frames outer : List Frame} {token : Token} {f : Formula}

@[simp] theorem step_opener :
    step frames Alphabet.readTexts.opener = some (empty :: frames) := rfl

@[simp] theorem step_operation (op : Operation) :
    step (frame :: outer) (Alphabet.readTexts.operation op) =
      some ({ frame with operation? := some op } :: outer) := rfl

@[simp] theorem step_closer (op : Operation) (operands : List Formula) :
    step (⟨some op, operands⟩ :: parent :: outer) Alphabet.readTexts.closer =
      some (parent.add (.operation op operands) :: outer) := rfl

theorem step_leaf (frame : Frame) (outer : List Frame) (hLeaf : token.writtenLeaf? = some f) :
    step (frame :: outer) token = some (frame.add f :: outer) := by
  cases token with
  | opener => exact nomatch hLeaf
  | closer => exact nomatch hLeaf
  | operation op => exact nomatch hLeaf
  | oversized => exact nomatch hLeaf
  | coordinate which => simp only [step, hLeaf, Option.map_some]
  | number value => simp only [step, hLeaf, Option.map_some]
  | unknown text => simp only [step, hLeaf, Option.map_some]

/-- The symbols of operands add the operands, if those of each one add that one. -/
theorem foldlM_flatten (frame : Frame) {operands : List Formula} {parts : Formula → List Token}
    (hOperands : ∀ f ∈ operands, ∀ frame : Frame,
      (parts f).foldlM step (frame :: outer) = some (frame.add f.normal :: outer)) :
    (operands.map parts).flatten.foldlM step (frame :: outer) =
      some ({ frame with operands := frame.operands ++ operands.map Formula.normal } :: outer) := by
  induction operands generalizing frame with
  | nil => simp
  | cons f rest ih =>
      have hFirst := hOperands f (List.mem_cons_self ..) frame
      have hRest := ih (frame.add f.normal) fun g hg => hOperands g (List.mem_cons_of_mem _ hg)
      rw [List.map_cons, List.flatten_cons, List.foldlM_append, hFirst]
      simpa [add] using hRest

/-- A bracket with the operation in front of its operands. -/
theorem foldlM_before (op : Operation) {parts : List Token} {operands : List Formula}
    (hParts : parts.foldlM step (⟨some op, []⟩ :: frame :: outer) =
      some (⟨some op, operands⟩ :: frame :: outer)) :
    (Alphabet.readTexts.opener :: Alphabet.readTexts.operation op ::
        (parts ++ [Alphabet.readTexts.closer])).foldlM step (frame :: outer) =
      some (frame.add (.operation op operands) :: outer) := by
  simp [empty, hParts]

/-- A bracket with the operation behind its operands. -/
theorem foldlM_behind (op : Operation) {parts : List Token} {operands : List Formula}
    (hParts : parts.foldlM step (⟨none, []⟩ :: frame :: outer) =
      some (⟨none, operands⟩ :: frame :: outer)) :
    (Alphabet.readTexts.opener :: (parts ++ [Alphabet.readTexts.operation op,
        Alphabet.readTexts.closer])).foldlM step (frame :: outer) =
      some (frame.add (.operation op operands) :: outer) := by
  simp [empty, hParts]

/-- A bracket with the operation between its operands. -/
theorem foldlM_between (op : Operation) {left right : List Token} {front all : List Formula}
    (hLeft : left.foldlM step (⟨none, []⟩ :: frame :: outer) =
      some (⟨none, front⟩ :: frame :: outer))
    (hRight : right.foldlM step (⟨some op, front⟩ :: frame :: outer) =
      some (⟨some op, all⟩ :: frame :: outer)) :
    (Alphabet.readTexts.opener :: (left ++ Alphabet.readTexts.operation op ::
        (right ++ [Alphabet.readTexts.closer]))).foldlM step (frame :: outer) =
      some (frame.add (.operation op all) :: outer) := by
  simp [empty, hLeft, hRight]

end Frame

namespace Formula

/-- All constants have texts of their own. -/
def isWritable : Formula → Bool :=
  everywhere Constant.isWritable fun _ _ => true

/-- The text of any formula is read as these tokens, whether or not it can be parsed. -/
theorem scan_render_eq_symbols (form : Notation) (f : Formula) :
    Token.scan (f.render form) = f.symbols .readTexts form := by
  have hTokens : Alphabet.texts.map Token.ofText = .readTexts := by
    ext1
    · exact Token.ofText_opener
    · exact Token.ofText_closer
    · exact funext Token.ofText_symbol
    · exact funext Token.ofText_name
    · rfl
  rw [Token.scan, split_render, texts, map_symbols, hTokens]

/-- The tokens of a formula add its normal form to the frame in front of them. -/
theorem foldlM_symbols {form : Notation} (hForm : form ≠ .plain) {f : Formula}
    (hWritable : f.isWritable = true) (frame : Frame) (outer : List Frame) :
    (f.symbols .readTexts form).foldlM Frame.step (frame :: outer) =
      some (frame.add f.normal :: outer) := by
  induction f generalizing frame outer with
  | constant value =>
      have hLeaf := Token.writtenLeaf?_ofText_text hWritable
      exact (bind_pure _).trans (Frame.step_leaf frame outer hLeaf)
  | coordinate which => rfl
  | operation op operands ih =>
      have hOperands := (everywhere_operation.mp hWritable).2
      have hParts (op? : Option Operation) := Frame.foldlM_flatten ⟨op?, []⟩
        fun f hf inner => ih f hf (hOperands f hf) inner (frame :: outer)
      have hCall := Frame.foldlM_before op (hParts (some op))
      rw [symbols_operation, normal_operation]
      cases form with
      | plain => exact absurd rfl hForm
      | prefixed => exact hCall
      | postfixed => exact Frame.foldlM_behind op (hParts none)
      | infixed =>
          by_cases hBetween : op.isOperator = true ∧ operands.length = 2
          · obtain ⟨hOperator, hTwo⟩ := hBetween
            obtain ⟨left, right, rfl⟩ := List.length_eq_two.mp hTwo
            have hLeft := ih left (by simp) (hOperands left (by simp)) ⟨none, []⟩ (frame :: outer)
            have hRight := ih right (by simp) (hOperands right (by simp))
              ⟨some op, [left.normal]⟩ (frame :: outer)
            have hBetween := Frame.foldlM_between op hLeft hRight
            rw [List.singleton_append] at hBetween
            simpa only [List.map_cons, List.map_nil, operationSymbols, hOperator] using hBetween
          · rw [operationSymbols_call _ (by simpa using hBetween)]
            exact Frame.foldlM_before op (hParts (some op))

/-- Formulas that are written alike have the same normal form. -/
theorem normal_eq_of_render_eq {form : Notation} (hForm : form ≠ .plain) {a b : Formula}
    (ha : a.isWritable = true) (hb : b.isWritable = true)
    (hText : a.render form = b.render form) : a.normal = b.normal := by
  have hTokens : a.symbols .readTexts form = b.symbols .readTexts form := by
    rw [← scan_render_eq_symbols, hText, scan_render_eq_symbols]
  have hFrames := foldlM_symbols hForm ha .empty []
  rw [hTokens, foldlM_symbols hForm hb] at hFrames
  simpa [Frame.add, Frame.empty] using hFrames.symm

/-- Two formulas match when they have the same shape and constants of the same exact value
at the same places. -/
inductive Matches : Formula → Formula → Prop where
  | constant {c d : Constant} (hExact : c.exact = d.exact) : Matches (.constant c) (.constant d)
  | coordinate (which : Coordinate) : Matches (.coordinate which) (.coordinate which)
  | operation (op : Operation) {front back : List Formula}
      (hOperands : List.Forall₂ Matches front back) :
      Matches (.operation op front) (.operation op back)

/-- Lists are equal after replacing when their members are, one by one. -/
theorem map_normal_eq_iff {front back : List Formula} :
    front.map normal = back.map normal ↔
      List.Forall₂ (fun a b => a.normal = b.normal) front back := by
  rw [← List.forall₂_eq_eq_eq, List.forall₂_map_left_iff, List.forall₂_map_right_iff]

/-- Comparing normal forms is comparing formulas node by node. -/
theorem agrees_iff_matches {a b : Formula} : a.agrees b = true ↔ a.Matches b := by
  rw [agrees_iff]
  induction a generalizing b with
  | constant c =>
      constructor
      · intro hNormal
        cases b with
        | constant d =>
            have hConstant : c.normal = d.normal := constant.inj hNormal
            exact .constant (Constant.agrees_iff_exact.mp (Constant.agrees_iff.mpr hConstant))
        | coordinate which => exact Formula.noConfusion hNormal
        | operation op operands => exact Formula.noConfusion hNormal
      · rintro ⟨hExact⟩
        exact congrArg constant (Constant.agrees_iff.mp (Constant.agrees_iff_exact.mpr hExact))
  | coordinate which =>
      constructor
      · intro hNormal
        cases b with
        | constant d => exact Formula.noConfusion hNormal
        | coordinate other =>
            obtain rfl : which = other := coordinate.inj hNormal
            exact .coordinate which
        | operation op operands => exact Formula.noConfusion hNormal
      · rintro ⟨⟩
        rfl
  | operation op operands ih =>
      constructor
      · intro hNormal
        cases b with
        | constant d => exact Formula.noConfusion hNormal
        | coordinate which => exact Formula.noConfusion hNormal
        | operation other others =>
            rw [normal_operation, normal_operation] at hNormal
            obtain ⟨rfl, hMap⟩ := operation.inj hNormal
            have hPairs := (List.forall₂_and_left _ _).mpr ⟨ih, map_normal_eq_iff.mp hMap⟩
            exact .operation op (hPairs.imp fun f g ⟨hBoth, hSame⟩ => hBoth.mp hSame)
      · intro hMatches
        cases hMatches with
        | operation _ hOperands =>
            have hPairs := (List.forall₂_and_left _ _).mpr ⟨ih, hOperands⟩
            rw [normal_operation, normal_operation]
            exact congrArg (operation op)
              (map_normal_eq_iff.mpr (hPairs.imp fun f g ⟨hBoth, hSame⟩ => hBoth.mpr hSame))

/-- Writable formulas are written alike in a form with brackets exactly if they are equal,
that is, if they have the same shape and constants of the same exact value. Here operations
may have any number of operands. So equality is an equivalence, and a text with brackets is
the text of one formula only. -/
theorem render_eq_iff_agrees {form : Notation} (hForm : form ≠ .plain) {a b : Formula}
    (ha : a.isWritable = true) (hb : b.isWritable = true) :
    (a.render form = b.render form ↔ a.agrees b = true) ∧ (a.agrees b = true ↔ a.Matches b) ∧
      Equivalence fun f g : Formula => f.agrees g = true := by
  refine ⟨⟨fun hText => ?_, fun hAgrees => ?_⟩, agrees_iff_matches, ?_⟩
  · exact agrees_iff.mpr (normal_eq_of_render_eq hForm ha hb hText)
  · rw [← render_normal form a, agrees_iff.mp hAgrees, render_normal]
  · simp only [agrees_iff]
    exact ⟨fun _ => rfl, Eq.symm, Eq.trans⟩

/-- Integers and reals of the same values are written alike, also among operands of which
there are too few, and one more than the value of a large real is written in another way. -/
theorem render_eq_iff_agrees_values :
    let real (mantissa : Nat) (exponent : Int)
        (hCanonical : Binary64.Canonical mantissa exponent) : Formula :=
      .constant (.real (.finite false mantissa exponent hCanonical))
    let none : Formula := .operation .div []
    let integer (n : Int) : Formula := .constant (.integer n)
    let zero : Formula := .constant (.real (.zero true))
    let a : Formula := .operation .sub [integer 2, zero, none]
    let b : Formula := .operation .sub [real (2 ^ 52) (-51) (by decide), integer 0, none]
    let large : Formula := integer (2 ^ 53 + 1)
    let power : Formula := real (2 ^ 52) 1 (by decide)
    (Notation.infixed ≠ .plain ∧ a.isWritable = true ∧ b.isWritable = true ∧
        large.isWritable = true ∧ power.isWritable = true) ∧
      (a.render .infixed = b.render .infixed ∧ a.Matches b) ∧
      (large.render .infixed ≠ power.render .infixed ∧ ¬ large.Matches power) ∧
      Equivalence fun f g : Formula => f.agrees g = true := by
  intro real none integer zero a b large power
  have hForm : Notation.infixed ≠ .plain := by decide
  have ha : a.isWritable = true := by decide +kernel
  have hb : b.isWritable = true := by decide +kernel
  have hLarge : large.isWritable = true := by decide +kernel
  have hPower : power.isWritable = true := by decide +kernel
  have hSame : a.agrees b = true := by decide +kernel
  have hOther : ¬ large.agrees power = true := by decide +kernel
  obtain ⟨hText, hMatches, hEquivalence⟩ := render_eq_iff_agrees hForm ha hb
  obtain ⟨hLargeText, hLargeMatches, -⟩ := render_eq_iff_agrees hForm hLarge hPower
  exact ⟨⟨hForm, ha, hb, hLarge, hPower⟩, ⟨hText.mpr hSame, hMatches.mp hSame⟩,
    ⟨mt hLargeText.mp hOther, mt hLargeMatches.mpr hOther⟩, hEquivalence⟩

end Formula

end Formulas
