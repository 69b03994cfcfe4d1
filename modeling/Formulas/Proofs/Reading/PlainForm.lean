import Formulas.Proofs.Formula.Spine
import Formulas.Proofs.Reading.Faults
import Formulas.Proofs.Reading.RoundTrip

/-! Formulas written in the plain form. A mean takes everything in front of it there, as no
bracket keeps it back. So a formula is read back if its means come first: nothing is in front
of their operands. Any other mean takes formulas that are not its own, and ends up as the part
with which everything read later begins. It has a size that no such part of the formula has,
so whatever becomes of the remaining tokens, the formula is not read back. -/
namespace Formulas.Reading

variable {s : Settings} {st next : State} {f g : Formula} {op : Operation}
  {operands stack : List Formula} {tokens front more : List Token}

/-- Formulas lie on the stack, no operation waits and no group is open. -/
def State.holding (stack : List Formula) : State :=
  { State.initial with stack }

theorem leads_leaf {token : Token} (hLeaf : token.leaf? = some f) (stack : List Formula) :
    Leads s (.holding stack) [token] (.holding (f :: stack)) := by
  apply Leads.single
  intro next?
  rw [step_leaf hLeaf, push_of_waiting_nil rfl]
  rfl

/-- Operands are read one by one, if each of them is on any stack. -/
theorem leads_operands {parts : Formula → List Token}
    (hOperands : ∀ f ∈ operands, ∀ stack,
      Leads s (.holding stack) (parts f) (.holding (f :: stack))) (stack : List Formula) :
    Leads s (.holding stack) (operands.map parts).flatten
      (.holding (operands.reverse ++ stack)) := by
  induction operands generalizing stack with
  | nil => exact .refl _
  | cons f rest ih =>
      have hFirst := hOperands f (List.mem_cons_self ..) stack
      have hRest := ih (fun g hg => hOperands g (List.mem_cons_of_mem _ hg)) (f :: stack)
      simpa using hFirst.trans hRest

section
variable (hForm : s.form.allowsWaiting = true)
include hForm

/-- An operation takes operands from the stack as its arity has it. -/
theorem leads_operation
    (hTake : op.arity.take? (operands.length + stack.length) = some operands.length) :
    Leads s (.holding (operands.reverse ++ stack)) [.operation op]
      (.holding (.operation op operands :: stack)) := by
  have hForward := Settings.isBackward_of_allowsWaiting hForm
  apply Leads.single
  intro next?
  rw [State.step_operation hForm]
  simp [State.holding, State.initial, State.meetWaiting, State.available, hTake, applyTop,
    Settings.arrange, hForward]

/-- Without means a formula is read on any stack. -/
theorem leads_of_hasMean_eq_false (hWellFormed : f.isWellFormed = true)
    (hNone : f.hasMean = false) (stack : List Formula) :
    Leads s (.holding stack) (f.tokens .plain) (.holding (f :: stack)) := by
  induction f generalizing stack with
  | constant value => exact leads_leaf rfl stack
  | coordinate which => exact leads_leaf rfl stack
  | operation op operands ih =>
      obtain ⟨hAdmits, hParts⟩ := Formula.isWellFormed_operation.mp hWellFormed
      obtain ⟨hExact, hOperands⟩ := Formula.hasMean_operation_eq_false.mp hNone
      have hTake := Operation.take?_of_isVariadic_eq_false hExact hAdmits stack.length
      rw [Formula.tokens_plain_operation]
      exact (leads_operands (fun f hf => ih f hf (hParts f hf) (hOperands f hf)) stack).trans
        (leads_operation hForm hTake)

/-- A formula whose means come first is read where nothing lies in front of it. -/
theorem leads_of_meansLead (hWellFormed : f.isWellFormed = true) (hLead : f.meansLead = true) :
    Leads s (.holding []) (f.tokens .plain) (.holding [f]) := by
  induction f with
  | constant value => exact leads_leaf rfl []
  | coordinate which => exact leads_leaf rfl []
  | operation op operands ih =>
      obtain ⟨hAdmits, hParts⟩ := Formula.isWellFormed_operation.mp hWellFormed
      obtain ⟨first, rest, rfl⟩ := Operation.exists_cons hAdmits
      obtain ⟨hFirstLeads, hNone⟩ := Formula.meansLead_cons.mp hLead
      have hFirst := ih first (by simp) (hParts first (by simp)) hFirstLeads
      have hRest := leads_operands (s := s) (fun f hf => leads_of_hasMean_eq_false hForm
        (hParts f (List.mem_cons_of_mem _ hf)) (hNone f hf)) [first]
      have hApply : Leads s (.holding ((first :: rest).reverse ++ [])) [.operation op]
          (.holding [.operation op (first :: rest)]) :=
        leads_operation hForm (Arity.take?_of_admits hAdmits)
      rw [List.append_nil, List.reverse_cons] at hApply
      rw [Formula.tokens_plain_operation]
      exact (hFirst.trans hRest).trans hApply

end

/-- At some moment everything so far has been gathered in one formula: what was on the stack
and one node for each token that was read. -/
def Gathers (s : Settings) (stack : List Formula) (tokens : List Token) : Prop :=
  ∃ passed left g, tokens = passed ++ left ∧ passed ≠ [] ∧
    Leads s (.holding stack) passed (.holding [g]) ∧
    g.size = Formula.totalSize stack + passed.length

namespace Gathers

theorem append (gathers : Gathers s stack tokens) (more : List Token) :
    Gathers s stack (tokens ++ more) := by
  obtain ⟨passed, left, g, rfl, hSome, hLeads, hSize⟩ := gathers
  exact ⟨passed, left ++ more, g, List.append_assoc .., hSome, hLeads, hSize⟩

/-- A formula that is put on the stack first is gathered, too. -/
theorem prepend (hLeads : Leads s (.holding stack) (f.tokens .plain) (.holding (f :: stack)))
    (gathers : Gathers s (f :: stack) more) : Gathers s stack (f.tokens .plain ++ more) := by
  obtain ⟨passed, left, g, rfl, hSome, hLater, hSize⟩ := gathers
  refine ⟨f.tokens .plain ++ passed, left, g, (List.append_assoc ..).symm, by simp [hSome],
    hLeads.trans hLater, ?_⟩
  rw [List.length_append, Formula.length_tokens_plain, hSize, Formula.totalSize_cons]
  omega

end Gathers

section
variable (hForm : s.form.allowsWaiting = true)
include hForm

/-- The first operand with a mean gathers everything in front of it. -/
theorem gathers_operands (hParts : ∀ f ∈ operands, f.isWellFormed = true)
    (hGathers : ∀ f ∈ operands, f.hasMean = true → ∀ stack, Gathers s stack (f.tokens .plain))
    (hSome : ∃ f ∈ operands, f.hasMean = true) (stack : List Formula) :
    Gathers s stack (operands.map (Formula.tokens .plain)).flatten := by
  induction operands generalizing stack with
  | nil => simp at hSome
  | cons f rest ih =>
      obtain ⟨hFirst, hRest⟩ := List.forall_mem_cons.mp hParts
      obtain ⟨hFirstGathers, hRestGathers⟩ := List.forall_mem_cons.mp hGathers
      rw [List.map_cons, List.flatten_cons]
      cases hMean : f.hasMean with
      | true => exact (hFirstGathers hMean stack).append _
      | false =>
          have hLater : ∃ f ∈ rest, f.hasMean = true := by simpa [hMean] using hSome
          exact .prepend (leads_of_hasMean_eq_false hForm hFirst hMean stack)
            (ih hRest hRestGathers hLater _)

/-- A mean whose operands hold none takes them and everything in front of them. -/
theorem gathers_of_isVariadic (hParts : ∀ f ∈ operands, f.isWellFormed = true)
    (hNone : ∀ f ∈ operands, f.hasMean = false) (hVariadic : op.isVariadic = true)
    (hSome : operands ≠ []) (stack : List Formula) :
    Gathers s stack (Formula.tokens .plain (.operation op operands)) := by
  let all := stack.reverse ++ operands
  have hTake : op.arity.take? (all.length + 0) = some all.length :=
    Operation.take?_of_isVariadic hVariadic
      (List.length_pos_of_ne_nil (List.append_ne_nil_of_right_ne_nil _ hSome))
  have hRead := leads_operands
    (fun f hf => leads_of_hasMean_eq_false hForm (hParts f hf) (hNone f hf)) stack
  have hApply : Leads s (.holding (all.reverse ++ [])) [.operation op]
      (.holding [.operation op all]) := leads_operation hForm hTake
  refine ⟨_, [], .operation op all, (List.append_nil _).symm, ?_, ?_, ?_⟩
  · simp [Formula.tokens_plain_operation]
  · rw [Formula.tokens_plain_operation]
    exact hRead.trans (by simpa [all] using hApply)
  · rw [Formula.length_tokens_plain, Formula.size_operation, Formula.size_operation]
    simp [all, Formula.totalSize]
    omega

theorem gathers_of_hasMean (hWellFormed : f.isWellFormed = true) (hMean : f.hasMean = true)
    (stack : List Formula) : Gathers s stack (f.tokens .plain) := by
  induction f generalizing stack with
  | constant value => simp at hMean
  | coordinate which => simp at hMean
  | operation op operands ih =>
      obtain ⟨hAdmits, hParts⟩ := Formula.isWellFormed_operation.mp hWellFormed
      by_cases hInside : ∃ f ∈ operands, f.hasMean = true
      · rw [Formula.tokens_plain_operation]
        exact (gathers_operands hForm hParts (fun f hf => ih f hf (hParts f hf)) hInside
          stack).append _
      · have hNone : ∀ f ∈ operands, f.hasMean = false := by simpa using hInside
        have hVariadic : op.isVariadic = true := by
          rw [Formula.hasMean_operation, List.any_eq_false.mpr (by simpa using hNone)] at hMean
          simpa using hMean
        obtain ⟨first, rest, rfl⟩ := Operation.exists_cons hAdmits
        exact gathers_of_isVariadic hForm hParts hNone hVariadic (by simp) stack

/-- A mean behind the first operand gathers more than that one, but not the whole operation. -/
theorem exists_stray_behind (hFirst : f.isWellFormed = true) (hLead : f.meansLead = true)
    (hRest : ∀ part ∈ operands, part.isWellFormed = true)
    (hInside : ∃ part ∈ operands, part.hasMean = true) :
    ∃ passed left g,
      f.tokens .plain ++ (operands.map (Formula.tokens .plain)).flatten = passed ++ left ∧
      Leads s (.holding []) passed (.holding [g]) ∧
      f.size < g.size ∧ g.size ≤ f.size + Formula.totalSize operands := by
  obtain ⟨passed, left, g, hTokens, hSome, hLeads, hSize⟩ := gathers_operands hForm hRest
    (fun part hPart hMean stack => gathers_of_hasMean hForm (hRest part hPart) hMean stack)
    hInside [f]
  have hGathered : g.size = f.size + passed.length := by simpa [Formula.totalSize] using hSize
  have hPassed := congrArg List.length hTokens
  have hPositive := List.length_pos_of_ne_nil hSome
  rw [Formula.length_flatten_plain, List.length_append] at hPassed
  refine ⟨f.tokens .plain ++ passed, left, g, by rw [hTokens, List.append_assoc],
    (leads_of_meansLead hForm hFirst hLead).trans hLeads, by omega, by omega⟩

/-- If a mean does not come first, reading comes to a single formula of a size that nothing
has with which the formula begins. -/
theorem exists_stray (hWellFormed : f.isWellFormed = true) (hStray : f.meansLead = false) :
    ∃ passed left g, f.tokens .plain = passed ++ left ∧
      Leads s (.holding []) passed (.holding [g]) ∧ g.size < f.size ∧
      ∀ part : Formula, part.Begins f → part.size ≠ g.size := by
  induction f with
  | constant value => simp at hStray
  | coordinate which => simp at hStray
  | operation op operands ih =>
      obtain ⟨hAdmits, hParts⟩ := Formula.isWellFormed_operation.mp hWellFormed
      obtain ⟨first, rest, rfl⟩ := Operation.exists_cons hAdmits
      obtain ⟨hFirst, hRest⟩ := List.forall_mem_cons.mp hParts
      rw [Formula.tokens_plain_operation, List.map_cons, List.flatten_cons, Formula.size_cons]
      cases hLead : first.meansLead with
      | false =>
          obtain ⟨passed, left, g, hTokens, hLeads, hSize, hOther⟩ :=
            ih first (List.mem_cons_self ..) hFirst hLead
          refine ⟨passed, _, g, by rw [hTokens, List.append_assoc, List.append_assoc], hLeads,
            by omega, ?_⟩
          intro part hPart
          cases hPart with
          | refl => rw [Formula.size_cons]; omega
          | first hBegins => exact hOther part hBegins
      | true =>
          have hInside : ∃ part ∈ rest, part.hasMean = true := by
            by_contra hOutside
            have hNone : ∀ part ∈ rest, part.hasMean = false := by simpa using hOutside
            exact Bool.eq_false_iff.mp hStray (Formula.meansLead_cons.mpr ⟨hLead, hNone⟩)
          obtain ⟨passed, left, g, hTokens, hLeads, hMore, hLess⟩ :=
            exists_stray_behind hForm hFirst hLead hRest hInside
          refine ⟨passed, left ++ [.operation op], g, by rw [hTokens, List.append_assoc], hLeads,
            by omega, ?_⟩
          -- The size lies strictly between those of the first operand and of the operation.
          intro part hPart
          cases hPart with
          | refl => rw [Formula.size_cons]; omega
          | first hBegins => have hPart := hBegins.size_le; omega

end

/-! What lies at the bottom of the stack stays there, or is what the formula there begins
with. -/

section
variable (hForward : s.isBackward = false)
include hForward

theorem begins_applyTop (count : Nat) (hBottom : stack.getLast? = some f) :
    ∃ g, (applyTop s op count stack).getLast? = some g ∧ f.Begins g := by
  by_cases hAll : stack.length ≤ count
  · obtain ⟨above, rfl⟩ := List.getLast?_eq_some_iff.mp hBottom
    refine ⟨.operation op (f :: above.reverse), ?_, .first (.refl f)⟩
    simp [applyTop, Settings.arrange, hForward, List.take_of_length_le hAll,
      List.drop_of_length_le hAll]
  · refine ⟨f, ?_, .refl f⟩
    rw [applyTop, List.getLast?_cons, List.getLast?_drop, if_neg hAll, hBottom]
    rfl

theorem Move.begins (move : Move s st tokens next) (hBottom : st.stack.getLast? = some f) :
    ∃ g, next.stack.getLast? = some g ∧ f.Begins g := by
  cases move with
  | push hLeaf => exact ⟨f, by simp [List.getLast?_cons, hBottom], .refl f⟩
  | apply hTake => exact begins_applyTop hForward _ hBottom
  | complete hWaiting hTake => exact begins_applyTop hForward _ hBottom
  | _ => exact ⟨f, hBottom, .refl f⟩

theorem Course.begins (course : Course s st tokens next) (hBottom : st.stack.getLast? = some f) :
    ∃ g, next.stack.getLast? = some g ∧ f.Begins g := by
  induction course with
  | refl => exact ⟨f, hBottom, .refl f⟩
  | move prior last ih =>
      obtain ⟨mid, hMid, hFirst⟩ := ih
      obtain ⟨g, hNext, hSecond⟩ := last.begins hForward hMid
      exact ⟨g, hNext, hFirst.trans hSecond⟩

/-- If the first formula of a text has been read, the result begins with it. -/
theorem begins_of_read {passed left : List Token}
    (hLeads : Leads s (.holding []) passed (.holding [f]))
    (hRead : (read s (passed ++ left)).result = .ok stack) :
    ∃ g, stack.getLast? = some g ∧ f.Begins g := by
  obtain ⟨last, said, hAdvance, hFinish, -⟩ := advance_of_read hRead
  rw [Settings.order_of_forward hForward, advance_append] at hAdvance
  obtain ⟨mid, hPassed, hLater⟩ := Result.bind_eq_ok.mp hAdvance
  obtain rfl : State.holding [f] = mid := Except.ok.inj ((hLeads _).symm.trans hPassed)
  obtain ⟨start, hEnd⟩ := finish_course hFinish
  exact ((advance_course hLater).trans hEnd).begins hForward rfl

end

/-- A text that leads to one formula is read to it. -/
theorem read_of_leads (hForward : s.isBackward = false)
    (hLeads : Leads s (.holding []) tokens (.holding [f])) :
    (read s tokens).result = .ok [f] := by
  have hAdvance : State.initial.advance s none tokens = .ok (.holding [f]) := hLeads none
  rw [read, result_run, Settings.order_of_forward hForward, hAdvance, Result.ok_bind,
    finish_of_closed rfl rfl]
  simp [State.holding]

/-- What is read from a formula in which a mean does not come first is another formula. -/
theorem normal_ne_of_read (hForm : s.form.allowsWaiting = true)
    (hWellFormed : f.isWellFormed = true) (hStray : f.meansLead = false)
    (hRead : (read s (f.normal.tokens .plain)).result = .ok stack) :
    ∃ g, stack.getLast? = some g ∧ f.normal ≠ g.normal := by
  obtain ⟨passed, left, g, hTokens, hLeads, -, hOther⟩ := exists_stray (s := s) hForm
    (by rwa [Formula.isWellFormed_normal]) (by rwa [Formula.meansLead_normal])
  rw [hTokens] at hRead
  obtain ⟨root, hRoot, hBegins⟩ :=
    begins_of_read (Settings.isBackward_of_allowsWaiting hForm) hLeads hRead
  refine ⟨root, hRoot, fun hSame => ?_⟩
  have hNormal : g.normal.Begins f.normal := hSame ▸ hBegins.normal
  exact hOther g.normal hNormal (Formula.size_normal g)

/-- The plain form of a well-formed formula with readable constants is read back, strictly or
not, exactly if its means come first: no operand holds one, unless it is the first of its
operation. From any other formula another one is read, unless strict reading refuses its text
for a mistake. In particular all formulas without means are read back. -/
theorem readText_render_plain {f : Formula} (strict : Bool) (hWellFormed : f.isWellFormed = true)
    (hReadable : f.isReadable = true) :
    ((∃ g, (readText ⟨.plain, strict⟩ (f.render .plain)).root? = .ok (some g) ∧
        f.agrees g = true) ↔ f.meansLead = true) ∧
      (f.meansLead = false →
        (∃ g, (readText ⟨.plain, strict⟩ (f.render .plain)).root? = .ok (some g) ∧
          f.agrees g = false) ∨
        strict = true ∧ ∃ what,
          (readText ⟨.plain, strict⟩ (f.render .plain)).root? = .error (.mistake what)) ∧
      (f.hasMean = false →
        ∃ g, (readText ⟨.plain, strict⟩ (f.render .plain)).root? = .ok (some g) ∧
          f.agrees g = true) := by
  have hRoot : (readText ⟨.plain, strict⟩ (f.render .plain)).root? =
      (read ⟨.plain, strict⟩ (f.normal.tokens .plain)).root? := by
    rw [readText, Formula.scan_render .plain hReadable]
  have hNormal : f.normal.isWellFormed = true := by rwa [Formula.isWellFormed_normal]
  have hReads (hLead : f.meansLead = true) :
      ∃ g, (readText ⟨.plain, strict⟩ (f.render .plain)).root? = .ok (some g) ∧
        f.agrees g = true := by
    have hLeads : Leads ⟨.plain, strict⟩ (.holding []) (f.normal.tokens .plain)
        (.holding [f.normal]) :=
      leads_of_meansLead rfl hNormal (by rwa [Formula.meansLead_normal])
    refine ⟨f.normal, ?_, by simp [Formula.agrees]⟩
    rw [hRoot, Outcome.root?, read_of_leads rfl hLeads]
    rfl
  have hStrays (hStray : f.meansLead = false) :
      (∃ g, (readText ⟨.plain, strict⟩ (f.render .plain)).root? = .ok (some g) ∧
        f.agrees g = false) ∨
      strict = true ∧ ∃ what,
        (readText ⟨.plain, strict⟩ (f.render .plain)).root? = .error (.mistake what) := by
    rw [hRoot, Outcome.root?]
    cases hResult : (read ⟨.plain, strict⟩ (f.normal.tokens .plain)).result with
    | ok stack =>
        obtain ⟨g, hLast, hOther⟩ := normal_ne_of_read rfl hWellFormed hStray hResult
        exact .inl ⟨g, congrArg Except.ok hLast, by simpa [Formula.agrees] using hOther⟩
    | error fault =>
        obtain ⟨hStrict, what, rfl⟩ :=
          mistake_of_read_eq_error (Formula.oversized_notMem_tokens_plain _) hResult
        exact .inr ⟨hStrict, what, rfl⟩
  refine ⟨⟨?_, hReads⟩, hStrays, fun hNone => hReads (Formula.meansLead_of_hasMean_eq_false hNone)⟩
  rintro ⟨g, hRead, hAgrees⟩
  by_contra hStray
  rcases hStrays (by simpa using hStray) with ⟨other, hOther, hDiffers⟩ | ⟨-, what, hRefused⟩
  · obtain rfl : g = other := Option.some.inj (Except.ok.inj (hRead.symm.trans hOther))
    exact Bool.eq_false_iff.mp hDiffers hAgrees
  · cases hRead.symm.trans hRefused

/-- A mean comes first in one difference and second in another, and there is none in a third. -/
theorem readText_render_plain_sub :
    let half : Formula := .constant (.real (.finite false (2 ^ 52) (-53) (by decide)))
    let mean : Formula := .operation .geomMean [.coordinate .x, .coordinate .y]
    let first : Formula := .operation .sub [.operation .negate [mean], half]
    let second : Formula := .operation .sub [half, mean]
    let third : Formula := .operation .sub [half, .coordinate .z]
    ((first.isWellFormed = true ∧ first.isReadable = true ∧ first.meansLead = true) ∧
        (second.isWellFormed = true ∧ second.isReadable = true ∧ second.meansLead = false) ∧
        third.isWellFormed = true ∧ third.isReadable = true ∧ third.hasMean = false) ∧
      (∃ g, (readText ⟨.plain, true⟩ (first.render .plain)).root? = .ok (some g) ∧
        first.agrees g = true) ∧
      ((∃ g, (readText ⟨.plain, true⟩ (second.render .plain)).root? = .ok (some g) ∧
          second.agrees g = false) ∨
        true = true ∧ ∃ what,
          (readText ⟨.plain, true⟩ (second.render .plain)).root? = .error (.mistake what)) ∧
      ∃ g, (readText ⟨.plain, false⟩ (third.render .plain)).root? = .ok (some g) ∧
        third.agrees g = true := by
  intro half mean first second third
  have hFirst : first.isWellFormed = true ∧ first.isReadable = true := by decide
  have hSecond : second.isWellFormed = true ∧ second.isReadable = true := by decide
  have hNone : third.isWellFormed = true ∧ third.isReadable = true := by decide
  have hLead : first.meansLead = true := by
    simp [first, mean, half, Formula.meansLead_cons]
  have hStray : second.meansLead = false := by
    rw [Bool.eq_false_iff, Ne, Formula.meansLead_cons]
    simp [mean, Formula.hasMean_operation, Operation.isVariadic, Operation.arity]
  have hNoMean : third.hasMean = false := by
    simp [third, half, Formula.hasMean_operation, Operation.isVariadic, Operation.arity]
  exact ⟨⟨⟨hFirst.1, hFirst.2, hLead⟩, ⟨hSecond.1, hSecond.2, hStray⟩, hNone.1, hNone.2, hNoMean⟩,
    (readText_render_plain true hFirst.1 hFirst.2).1.mpr hLead,
    (readText_render_plain true hSecond.1 hSecond.2).2.1 hStray,
    (readText_render_plain false hNone.1 hNone.2).2.2 hNoMean⟩

end Formulas.Reading
