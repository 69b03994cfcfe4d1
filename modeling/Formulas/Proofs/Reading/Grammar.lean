import Formulas.Proofs.Formula.Tidiness
import Formulas.Proofs.Reading.Mirror
import Formulas.Proofs.Reading.Segment

/-! Which texts strict reading accepts in the two bracketed notations. The spelling of
every well-formed formula is accepted. A text that is accepted is the spelling of the
formula that it is read to exactly if it is tidy. -/
namespace Formulas.Reading

variable {top : Bool} {tokens : List Token} {formulas : List Formula}

/-- The formulas of a tidy segment are spelled by the segment. -/
theorem Segment.eq_tokens_of_areTidy (segment : Segment top tokens formulas) {n : Nat}
    {counts : List Nat} {rest : List Mark}
    (hTidy : Mark.areTidy (n :: counts) (tokens.map Token.mark ++ rest) = true) :
    tokens = (formulas.map (Formula.tokens .postfixed)).flatten ∧
      Mark.areTidy ((n + formulas.length) :: counts) rest = true := by
  induction segment generalizing n counts rest with
  | nil top => exact ⟨rfl, hTidy⟩
  | @append top left right first second before after ihBefore ihAfter =>
      rw [List.map_append, List.append_assoc] at hTidy
      obtain ⟨hLeft, hMiddle⟩ := ihBefore hTidy
      obtain ⟨hRight, hRest⟩ := ihAfter hMiddle
      rw [Nat.add_assoc] at hRest
      exact ⟨by simp [hLeft, hRight], by simpa using hRest⟩
  | @leaf top token f hLeaf =>
      rcases Token.leaf?_eq_some hLeaf with ⟨which, rfl, rfl⟩ | ⟨value, rfl, rfl⟩ <;>
        exact ⟨rfl, hTidy⟩
  | hollow => simp [Mark.areTidy, Token.mark] at hTidy
  | @group top within parts op taken body hTake ih =>
      have hInner : Mark.areTidy (0 :: n :: counts)
          (within.map Token.mark ++ .operation op :: .closer :: rest) = true := by
        simpa [Mark.areTidy, Token.mark] using hTidy
      obtain ⟨hWithin, hGroup⟩ := ih hInner
      simp only [Nat.zero_add, Mark.areTidy, Bool.and_eq_true, decide_true, Bool.true_and] at hGroup
      obtain ⟨hAdmits, hRest⟩ := hGroup
      obtain rfl : parts.length = taken := by
        rw [Arity.take?_of_admits hAdmits] at hTake
        exact Option.some.inj hTake
      have hGathered : gathered op parts.length parts = [.operation op parts] := by
        simp [gathered]
      rw [hGathered]
      refine ⟨?_, hRest⟩
      rw [hWithin, List.map_singleton, List.flatten_singleton, Formula.tokens_operation]
      rfl

variable {form : Notation} {f : Formula} {stack : List Formula}

/-- Strict reading in a bracketed notation accepts the segments that come to one formula. -/
theorem strict_read_iff (hForm : form.allowsWaiting = false) (tokens : List Token)
    (stack : List Formula) :
    (read ⟨form, true⟩ tokens).result = .ok stack ↔
      ∃ f, stack = [f] ∧ Segment false (Token.forward form tokens) [f.oriented form] := by
  cases form with
  | plain => simp [Notation.allowsWaiting] at hForm
  | infixed => simp [Notation.allowsWaiting] at hForm
  | postfixed => exact strict_read_postfixed_iff tokens stack
  | prefixed =>
      have hMirror : (read ⟨.prefixed, true⟩ tokens).result =
          (read ⟨.postfixed, true⟩ (Token.backward tokens)).result.map
            (List.map Formula.mirror) := by
        rw [read_prefixed]
        rfl
      rw [hMirror, Result.map_eq_ok]
      constructor
      · rintro ⟨mirrored, hRead, rfl⟩
        obtain ⟨g, rfl, segment⟩ := (strict_read_postfixed_iff _ _).mp hRead
        exact ⟨g.mirror, rfl, by simpa [Token.forward, Formula.oriented] using segment⟩
      · rintro ⟨f, rfl, segment⟩
        refine ⟨[f.mirror], (strict_read_postfixed_iff _ _).mpr ⟨_, rfl, ?_⟩, by simp⟩
        simpa [Token.forward, Formula.oriented] using segment

/-- Strict reading accepts the tokens of every well-formed formula. -/
theorem strict_read_bracketed (hForm : form.allowsWaiting = false)
    (hWellFormed : f.isWellFormed = true) :
    (read ⟨form, true⟩ (f.tokens form)).result = .ok [f] := by
  refine (strict_read_iff hForm _ _).mpr ⟨f, rfl, ?_⟩
  rw [Formula.forward_tokens hForm]
  exact segment_tokens (by rwa [Formula.isWellFormed_oriented]) false

/-- What strict reading accepts are the tokens of the formula exactly if they are tidy. -/
theorem eq_tokens_iff_areTidy (hForm : form.allowsWaiting = false)
    (hRead : (read ⟨form, true⟩ tokens).result = .ok [f]) :
    f.isWellFormed = true ∧ (tokens = f.tokens form ↔ Token.areTidy form tokens = true) := by
  obtain ⟨g, hStack, segment⟩ := (strict_read_iff hForm _ _).mp hRead
  obtain rfl := List.singleton_inj.mp hStack
  have hWellFormed : f.isWellFormed = true := by
    rw [← Formula.isWellFormed_oriented form]
    exact segment.isWellFormed _ (List.mem_singleton_self _)
  refine ⟨hWellFormed, ?_, ?_⟩
  · rintro rfl
    exact Formula.areTidy_tokens hForm hWellFormed
  · intro hTidy
    rw [Token.areTidy, ← List.append_nil (List.map _ _)] at hTidy
    have hTokens := (segment.eq_tokens_of_areTidy hTidy).1
    rw [List.map_singleton, List.flatten_singleton, ← Formula.forward_tokens hForm] at hTokens
    rw [← Token.forward_forward form tokens, hTokens, Token.forward_forward]

/-- Strict reading in a bracketed notation leaves one formula, the root. -/
theorem root?_strict_iff (hForm : form.allowsWaiting = false) :
    (read ⟨form, true⟩ tokens).root? = .ok (some f) ↔
      (read ⟨form, true⟩ tokens).result = .ok [f] := by
  rw [Outcome.root?, Result.map_eq_ok]
  constructor
  · rintro ⟨stack, hRead, hRoot⟩
    obtain ⟨g, rfl, -⟩ := (strict_read_iff hForm _ _).mp hRead
    obtain rfl : g = f := Option.some.inj hRoot
    exact hRead
  · intro hRead
    exact ⟨[f], hRead, rfl⟩

/-- In a bracketed notation strict reading comes to well-formed formulas only. The pieces
that it accepts are those of the text of the formula, up to the spelling of numbers,
exactly if they are tidy; and it accepts all the pieces that spell a well-formed formula. -/
theorem strict_read_pieces (hForm : form.allowsWaiting = false) (pieces : List String)
    (f : Formula) :
    ((read ⟨form, true⟩ (pieces.map Token.ofText)).root? = .ok (some f) →
        f.isWellFormed = true ∧
          (pieces.map Token.respell = Token.split (f.render form) ↔
            Token.areTidy form (pieces.map Token.ofText) = true)) ∧
      (f.isWellFormed = true → pieces.map Token.ofText = f.tokens form →
        (read ⟨form, true⟩ (pieces.map Token.ofText)).root? = .ok (some f)) := by
  constructor
  · intro hRoot
    obtain ⟨hWellFormed, hTidy⟩ := eq_tokens_iff_areTidy hForm ((root?_strict_iff hForm).mp hRoot)
    refine ⟨hWellFormed, ?_⟩
    rw [Formula.split_render]
    constructor
    · intro hPieces
      rw [Token.areTidy_congr (Formula.map_mark_of_respell hPieces)]
      exact Formula.areTidy_tokens hForm hWellFormed
    · intro hAreTidy
      exact Formula.map_respell_of_tokens (hTidy.mpr hAreTidy)
  · intro hWellFormed hTokens
    rw [hTokens]
    exact (root?_strict_iff hForm).mpr (strict_read_bracketed hForm hWellFormed)

/-- The sum of a half, not in its shortest spelling, and a negated coordinate. -/
theorem strict_read_pieces_sum :
    let pieces := ["(", "0.50", "(", "x", "negate", ")", "+", ")"]
    let half : Constant := .real (.finite false (2 ^ 52) (-53) (by decide))
    let f : Formula := .operation .add [.constant half, .operation .negate [.coordinate .x]]
    Notation.postfixed.allowsWaiting = false ∧
      (read ⟨.postfixed, true⟩ (pieces.map Token.ofText)).root? = .ok (some f) ∧
      f.isWellFormed = true ∧
      (pieces.map Token.respell = Token.split (f.render .postfixed) ↔
        Token.areTidy .postfixed (pieces.map Token.ofText) = true) := by
  intro pieces half f
  have hForm : Notation.postfixed.allowsWaiting = false := rfl
  have hPieces := strict_read_pieces hForm pieces f
  have hRead := hPieces.2 (by decide) (by decide)
  exact ⟨hForm, hRead, hPieces.1 hRead⟩

/-- A group that is empty, and operands that the operation of their group does not take, are
accepted although the formula is spelled without them or elsewhere. -/
theorem strict_read_untidy :
    let hollow := ["(", "(", "1", "2", "+", ")", "(", ")", "3", "+", ")"]
    let surplus := ["(", "(", "1", "2", "3", "+", ")", "arithMean", ")"]
    let sum (a b : Formula) : Formula := .operation .add [a, b]
    let number (n : Int) : Formula := .constant (.integer n)
    let f := sum (sum (number 1) (number 2)) (number 3)
    let g := .operation .arithMean [number 1, sum (number 2) (number 3)]
    (read ⟨.postfixed, true⟩ (hollow.map Token.ofText)).root? = .ok (some f) ∧
      hollow.map Token.respell ≠ Token.split (f.render .postfixed) ∧
      (read ⟨.postfixed, true⟩ (surplus.map Token.ofText)).root? = .ok (some g) ∧
      surplus.map Token.respell ≠ Token.split (g.render .postfixed) := by
  intro hollow surplus sum number f g
  refine ⟨?_, ?_, ?_, ?_⟩ <;> decide

end Formulas.Reading
