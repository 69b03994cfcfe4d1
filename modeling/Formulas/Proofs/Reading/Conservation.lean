import Formulas.Journal
import Formulas.Proofs.Formula.Preorder
import Formulas.Proofs.Reading.Balance
import Formulas.Proofs.Token.Text

/-! What becomes of the tokens of a text. All leaves stay, in their order. Every operation
is applied once, waits, or has been passed over with one notice; at the end none waits. -/
namespace Formulas

namespace Token

/-- The operation that a token stands for. -/
def operation? : Token → Option Operation
  | .operation op => some op
  | _ => none

/-- The token means something in a text. -/
def isKnown : Token → Bool
  | .oversized | .unknown _ => false
  | _ => true

/-- The token is no bracket. -/
def isItem : Token → Bool
  | .opener | .closer => false
  | _ => true

/-- Items that are known are leaves or operations. -/
theorem countP_isItem {tokens : List Token} (hKnown : ∀ token ∈ tokens, token.isKnown = true) :
    tokens.countP isItem =
      (tokens.filterMap leaf?).length + (tokens.filterMap operation?).length := by
  induction tokens with
  | nil => rfl
  | cons token rest ih =>
      have hRest := ih fun token hToken => hKnown token (List.mem_cons_of_mem _ hToken)
      have hFirst := hKnown token (List.mem_cons_self ..)
      rw [List.countP_cons, hRest]
      cases token <;> simp [isItem, leaf?, operation?, List.filterMap_cons] <;>
        first | omega | simp [isKnown] at hFirst

/-- The brackets are the only pieces that are no items. -/
theorem isItem_ofText (piece : String) :
    (ofText piece).isItem = decide (piece ≠ "(" ∧ piece ≠ ")") := by
  by_cases hOpener : piece = "("
  · rw [hOpener, ofText_opener]
    rfl
  by_cases hCloser : piece = ")"
  · rw [hCloser, ofText_closer]
    rfl
  have hItem : (ofText piece).isItem = true := by
    rcases ofText_cases piece with ⟨op, rfl⟩ | ⟨which, rfl⟩ | rfl | rfl | hLiteral
    · rw [ofText_symbol]
      rfl
    · rw [ofText_name]
      rfl
    · exact absurd rfl hOpener
    · exact absurd rfl hCloser
    · rw [hLiteral]
      rcases ofLiteral_cases piece with ⟨value, hRead⟩ | hRead | hRead <;> rw [hRead] <;> rfl
  rw [hItem]
  simp [hOpener, hCloser]

end Token

namespace Reading

/-- The operation that was passed over with the notice. -/
def Notice.lost? : Notice → Option Operation
  | .starved op | .dropped op => some op
  | _ => none

/-- Losses are what warnings are about. -/
theorem Notice.isSome_lost? (notice : Notice) :
    notice.lost?.isSome = decide (notice.toMessage.severity = .warning) := by
  cases notice <;> rfl

/-- There is one warning for each lost operation. -/
theorem Notice.length_lost? (notices : List Notice) :
    (notices.filterMap lost?).length =
      (notices.map toMessage).countP fun message => message.severity = .warning := by
  rw [List.length_filterMap_eq_countP, List.countP_map]
  exact List.countP_congr fun notice _ => by simp [isSome_lost?]

/-- The operations that wait in a group. -/
def Group.operations (g : Group) : List Operation :=
  g.waiting.map Waiting.op

/-- The operations that have been applied, that wait in some group, or that were lost. -/
def State.operations (st : State) : List Operation :=
  st.stack.flatMap Formula.kinds ++ (st.group :: st.outer).flatMap Group.operations ++
    st.notices.filterMap Notice.lost?

variable {s : Settings} {st next : State} {tokens more : List Token}

theorem leaves_applyTop (s : Settings) (op : Operation) (count : Nat) (stack : List Formula) :
    (s.arrange (applyTop s op count stack)).flatMap Formula.leaves =
      (s.arrange stack).flatMap Formula.leaves := by
  have hStack := List.take_append_drop count stack
  cases hBackward : s.isBackward with
  | true =>
      simp only [applyTop, Settings.arrange, hBackward, if_true, List.flatMap_cons,
        Formula.leaves_operation, ← List.flatMap_append, hStack]
  | false =>
      simp only [applyTop, Settings.arrange, hBackward, Bool.false_eq_true, if_false,
        List.reverse_cons, List.flatMap_append, List.flatMap_singleton, Formula.leaves_operation]
      rw [← List.flatMap_append, ← List.reverse_append, hStack]

theorem kinds_applyTop (s : Settings) (op : Operation) (count : Nat) (stack : List Formula) :
    ((applyTop s op count stack).flatMap Formula.kinds).Perm
      (op :: stack.flatMap Formula.kinds) := by
  have hTaken : ((s.arrange (stack.take count)).flatMap Formula.kinds).Perm
      ((stack.take count).flatMap Formula.kinds) := (s.arrange_perm _).flatMap_right _
  rw [applyTop, List.flatMap_cons, Formula.kinds_operation, List.cons_append]
  refine .cons op ((hTaken.append_right _).trans ?_)
  rw [← List.flatMap_append, List.take_append_drop]

@[simp] theorem opener_no_item (s : Settings) :
    s.opener.leaf? = none ∧ s.opener.operation? = none := by
  cases hBackward : s.isBackward <;>
    simp [Settings.opener, hBackward, Token.leaf?, Token.operation?]

@[simp] theorem closer_no_item (s : Settings) :
    s.closer.leaf? = none ∧ s.closer.operation? = none := by
  cases hBackward : s.isBackward <;>
    simp [Settings.closer, hBackward, Token.leaf?, Token.operation?]

/-- Tokens without leaves add no leaves to those read before. -/
theorem leaves_order_append (tokens : List Token) (hNone : more.filterMap Token.leaf? = []) :
    (s.order (tokens ++ more)).filterMap Token.leaf? =
      (s.order tokens).filterMap Token.leaf? := by
  unfold Settings.order
  split_ifs <;> simp [List.filterMap_reverse, hNone]

/-- Each move puts the leaf that it reads behind those that were read before. -/
theorem Move.leaves (move : Move s st more next)
    (hLeaves : (s.arrange st.stack).flatMap Formula.leaves =
      (s.order tokens).filterMap Token.leaf?) :
    (s.arrange next.stack).flatMap Formula.leaves =
      (s.order (tokens ++ more)).filterMap Token.leaf? := by
  cases move with
  | @push token f hLeaf =>
      have hSelf : f.leaves = [f] := by
        apply Formula.leaves_of_isOperation_eq_false
        rcases Token.leaf?_eq_some hLeaf with ⟨which, -, rfl⟩ | ⟨value, -, rfl⟩ <;> rfl
      unfold Settings.arrange Settings.order at hLeaves ⊢
      split_ifs at hLeaves ⊢ <;> simp [hLeaves, hSelf, hLeaf]
  | apply hTake =>
      rw [leaves_order_append tokens (by simp [Token.leaf?]), ← hLeaves]
      exact leaves_applyTop ..
  | complete hWaiting hTake =>
      rw [List.append_nil, ← hLeaves]
      exact leaves_applyTop ..
  | enter => rwa [leaves_order_append tokens (by simp)]
  | await hWaits hBase => rwa [leaves_order_append tokens (by simp [Token.leaf?])]
  | starve hLenient hFew => rwa [leaves_order_append tokens (by simp [Token.leaf?])]
  | skip hLenient => rwa [leaves_order_append tokens (by simp [Token.leaf?])]
  | ignore hLenient hOuter => rwa [leaves_order_append tokens (by simp)]
  | drop hLenient hWaiting hFew => rwa [List.append_nil]
  | leave hOuter hWaiting => rwa [leaves_order_append tokens (by simp)]
  | abandon hLenient hOuter hWaiting => rwa [List.append_nil]

theorem Course.leaves (course : Course s .initial tokens st) :
    (s.arrange st.stack).flatMap Formula.leaves = (s.order tokens).filterMap Token.leaf? := by
  induction course with
  | refl => simp [State.initial, Settings.arrange, Settings.order]
  | move prior last ih => exact last.leaves ih

/-- An operation goes to the end of the accounts. -/
theorem perm_insert (front back : List Operation) (op : Operation) :
    (front ++ op :: back).Perm (front ++ back ++ [op]) :=
  List.perm_middle.trans (List.perm_append_singleton op _).symm

/-- Each move accounts for the operation that it reads. -/
theorem Move.operations (move : Move s st tokens next)
    (hNone : s.form.allowsWaiting = false → st.group.waiting = []) :
    next.operations.Perm (st.operations ++ tokens.filterMap Token.operation?) := by
  cases move with
  | @push token f hLeaf =>
      have hNoOperation : f.kinds = [] ∧ token.operation? = none := by
        rcases Token.leaf?_eq_some hLeaf with ⟨which, rfl, rfl⟩ | ⟨value, rfl, rfl⟩ <;>
          exact ⟨Formula.kinds_of_isOperation_eq_false rfl, rfl⟩
      simp [State.operations, hNoOperation]
  | @apply op taken hTake =>
      have hKinds := kinds_applyTop s op taken st.stack
      exact ((hKinds.append_right _).append_right _).trans (perm_insert [] _ op)
  | @await op base hWaits hBase =>
      have hMoved := perm_insert (st.stack.flatMap Formula.kinds)
        ((st.group :: st.outer).flatMap Group.operations ++ st.notices.filterMap Notice.lost?) op
      simpa [State.operations, Group.operations, State.await, Token.operation?] using hMoved
  | @starve op hLenient hFew => exact perm_insert _ _ op
  -- Nothing is read here: the operation goes from those that wait to the nodes, or to the
  -- lost ones.
  | @complete w rest taken hWaiting hTake =>
      have hKinds := kinds_applyTop s w.op taken st.stack
      let others := rest.map Waiting.op ++ st.outer.flatMap Group.operations ++
        st.notices.filterMap Notice.lost?
      have hMoved : (w.op :: st.stack.flatMap Formula.kinds ++ others).Perm
          (st.stack.flatMap Formula.kinds ++ w.op :: others) := List.perm_middle.symm
      simpa [State.operations, Group.operations, hWaiting, others] using
        (hKinds.append_right others).trans hMoved
  | @drop w rest hLenient hWaiting hFew =>
      let others := rest.map Waiting.op ++ st.outer.flatMap Group.operations
      have hMoved : (others ++ w.op :: st.notices.filterMap Notice.lost?).Perm
          (w.op :: (others ++ st.notices.filterMap Notice.lost?)) := List.perm_middle
      simpa [State.operations, Group.operations, hWaiting, Notice.lost?, others] using
        hMoved.append_left (st.stack.flatMap Formula.kinds)
  | enter => simp [State.operations, State.openGroup, Group.operations]
  | skip hLenient =>
      simp [State.operations, State.note, List.filterMap_cons, Token.operation?, Notice.lost?]
  | ignore hLenient hOuter => simp
  | leave hOuter hWaiting =>
      have hEmpty : st.group.waiting = [] := by
        cases hWaits : s.form.allowsWaiting with
        | true => exact hWaiting hWaits
        | false => exact hNone hWaits
      simp [State.operations, Group.operations, hOuter, hEmpty]
  | abandon hLenient hOuter hWaiting =>
      simp [State.operations, Group.operations, hOuter, hWaiting]

theorem Course.operations (course : Course s .initial tokens st) :
    st.operations.Perm (tokens.filterMap Token.operation?) := by
  induction course with
  | refl => simp [State.operations, State.initial, Group.operations]
  | move prior last ih =>
      have hLast := last.operations fun hBracketed =>
        prior.waiting_eq_nil hBracketed _ (List.mem_cons_self ..)
      rw [List.filterMap_append]
      exact hLast.trans (ih.append_right _)

/-- Strict reading passes over nothing and knows every token. -/
theorem Move.strict (move : Move s st tokens next) (hStrict : s.strict = true) :
    next.notices = st.notices ∧ ∀ token ∈ tokens, token.isKnown = true := by
  have hBracket (token : Token) (hToken : token = .opener ∨ token = .closer) :
      token.isKnown = true := by
    rcases hToken with rfl | rfl <;> rfl
  cases move with
  | @push token f hLeaf =>
      refine ⟨rfl, ?_⟩
      rcases Token.leaf?_eq_some hLeaf with ⟨which, rfl, -⟩ | ⟨value, rfl, -⟩ <;>
        simp [Token.isKnown]
  | enter => exact ⟨rfl, by simpa using hBracket _ (Settings.bracket_iff.mpr (.inl rfl))⟩
  | leave hOuter hWaiting =>
      exact ⟨rfl, by simpa using hBracket _ (Settings.bracket_iff.mpr (.inr rfl))⟩
  | apply hTake => exact ⟨rfl, by simp [Token.isKnown]⟩
  | await hWaits hBase => exact ⟨rfl, by simp [Token.isKnown]⟩
  | complete hWaiting hTake => exact ⟨rfl, by simp⟩
  | starve hLenient hFew => simp [hStrict] at hLenient
  | skip hLenient => simp [hStrict] at hLenient
  | ignore hLenient hOuter => simp [hStrict] at hLenient
  | drop hLenient hWaiting hFew => simp [hStrict] at hLenient
  | abandon hLenient hOuter hWaiting => simp [hStrict] at hLenient

theorem Course.strict (course : Course s st tokens next) (hStrict : s.strict = true) :
    next.notices = st.notices ∧ ∀ token ∈ tokens, token.isKnown = true := by
  induction course with
  | refl => simp
  | move prior last ih =>
      obtain ⟨hNotices, hKnown⟩ := last.strict hStrict
      refine ⟨hNotices.trans ih.1, fun token hToken => ?_⟩
      rcases List.mem_append.mp hToken with hToken | hToken
      · exact ih.2 token hToken
      · exact hKnown token hToken

theorem strict_length_eq_one {stack : List Formula} (hStrict : s.strict = true)
    (hRead : (read s tokens).result = .ok stack) : stack.length = 1 := by
  obtain ⟨last, said, -, hFinish, -⟩ := advance_of_read hRead
  obtain ⟨-, hFinish⟩ := Result.guard_eq_ok.mp hFinish
  obtain ⟨left, -, hEnd⟩ := Result.bind_eq_ok.mp hFinish
  obtain ⟨hOne, hEnd⟩ := Result.guard_eq_ok.mp hEnd
  obtain ⟨rfl, -⟩ := Prod.mk.inj (Except.ok.inj hEnd)
  simpa [hStrict] using hOne

/-- The leaves of what has been read are those of the text, in their order. -/
theorem leaves_of_read {stack : List Formula} (hRead : (read s tokens).result = .ok stack) :
    (s.arrange stack).flatMap Formula.leaves = tokens.filterMap Token.leaf? := by
  obtain ⟨start, said, hCourse, -⟩ := read_course hRead
  simpa using hCourse.leaves

/-- A strict text that is read holds known tokens only. -/
theorem isKnown_of_strict_read {stack : List Formula} (hStrict : s.strict = true)
    (hRead : (read s tokens).result = .ok stack) : ∀ token ∈ tokens, token.isKnown = true := by
  obtain ⟨start, said, hCourse, -⟩ := read_course hRead
  intro token hToken
  exact (hCourse.strict hStrict).2 token ((s.order_perm tokens).mem_iff.mpr hToken)

/-- Whatever the pieces of a text are, reading that succeeds keeps all leaves in their order,
and every operation is a node of what is left on the stack or was passed over with a warning.
Strict reading passes over nothing, so that the formula has a node for each piece that is no
bracket. -/
theorem read_pieces_conserves {s : Settings} {pieces : List String} {stack : List Formula}
    (hRead : (read s (pieces.map Token.ofText)).result = .ok stack) :
    (s.arrange stack).flatMap Formula.leaves = (pieces.map Token.ofText).filterMap Token.leaf? ∧
      (stack.flatMap Formula.kinds ++
          (read s (pieces.map Token.ofText)).notices.filterMap Notice.lost?).Perm
        ((pieces.map Token.ofText).filterMap Token.operation?) ∧
      ((read s (pieces.map Token.ofText)).notices.filterMap Notice.lost?).length =
        ((read s (pieces.map Token.ofText)).notices.map Notice.toMessage).countP
          (fun message => message.severity = .warning) ∧
      (s.strict = true →
        (read s (pieces.map Token.ofText)).notices = [.finished pieces.length s] ∧
          (∀ piece ∈ pieces, (Token.ofText piece).isKnown = true) ∧
          s.isBalanced (s.order (pieces.map Token.ofText)) = true ∧
          ∃ f, stack = [f] ∧
            f.size = pieces.countP fun piece => piece ≠ "(" ∧ piece ≠ ")") := by
  obtain ⟨start, said, hCourse, hNotices⟩ := read_course hRead
  have hLeaves : (s.arrange stack).flatMap Formula.leaves =
      (pieces.map Token.ofText).filterMap Token.leaf? := by
    simpa using hCourse.leaves
  have hOperations : (stack.flatMap Formula.kinds ++
      (read s (pieces.map Token.ofText)).notices.filterMap Notice.lost?).Perm
        ((pieces.map Token.ofText).filterMap Token.operation?) := by
    have hLost : ((read s (pieces.map Token.ofText)).notices.filterMap Notice.lost?).Perm
        (said.filterMap Notice.lost?) := by
      rw [hNotices, List.filterMap_append, List.filterMap_reverse]
      simp [List.filterMap_cons, Notice.lost?, List.reverse_perm]
    have hRead : (stack.flatMap Formula.kinds ++ said.filterMap Notice.lost?).Perm
        ((s.order (pieces.map Token.ofText)).filterMap Token.operation?) := by
      simpa [State.operations, Group.operations] using hCourse.operations
    exact ((hLost.append_left _).trans hRead).trans ((s.order_perm _).filterMap _)
  refine ⟨hLeaves, hOperations, Notice.length_lost? _, fun hStrict => ?_⟩
  obtain ⟨rfl, hKnown⟩ := hCourse.strict hStrict
  have hKnown : ∀ token ∈ pieces.map Token.ofText, token.isKnown = true := fun token hToken =>
    hKnown token ((s.order_perm _).mem_iff.mpr hToken)
  obtain ⟨f, rfl⟩ := List.length_eq_one_iff.mp (strict_length_eq_one hStrict hRead)
  have hLeafCount : f.leaves.length = ((pieces.map Token.ofText).filterMap Token.leaf?).length := by
    rw [← hLeaves]
    simp [((s.arrange_perm [f]).flatMap_right Formula.leaves).length_eq]
  have hKindCount :
      f.kinds.length = ((pieces.map Token.ofText).filterMap Token.operation?).length := by
    rw [← hOperations.length_eq, hNotices]
    simp [State.initial, Notice.lost?]
  refine ⟨by simpa [State.initial] using hNotices,
    fun piece hPiece => hKnown _ (List.mem_map_of_mem hPiece),
    strict_isBalanced hStrict hRead, f, rfl, ?_⟩
  have hItems : (pieces.countP fun piece => piece ≠ "(" ∧ piece ≠ ")") =
      (pieces.map Token.ofText).countP Token.isItem := by
    rw [List.countP_map]
    exact List.countP_congr fun piece _ => by simp [Token.isItem_ofText]
  rw [Formula.size_eq_leaves_kinds, hLeafCount, hKindCount, hItems, Token.countP_isItem hKnown]

/-- A strict text that is read from back to front, and one in which the brackets keep two
operations from their operands. -/
theorem read_pieces_conserves_product :
    let strict : Settings := ⟨.prefixed, true⟩
    let kept := ["(", "-", "(", "*", "2", "x", ")", "y", ")"]
    let two : Formula := .constant (.integer 2)
    let product : Formula := .operation .mul [two, .coordinate .x]
    let f : Formula := .operation .sub [product, .coordinate .y]
    let lenient : Settings := ⟨.infixed, false⟩
    let torn := ["(", "2", "*", ")", "(", "x", "-", ")", "y"]
    ((read strict (kept.map Token.ofText)).result = .ok [f] ∧
        f.leaves = [two, .coordinate .x, .coordinate .y] ∧ f.size = 5) ∧
      ∃ stack, (read lenient (torn.map Token.ofText)).result = .ok stack ∧
        stack.reverse.flatMap Formula.leaves = [two, .coordinate .x, .coordinate .y] ∧
        (stack.flatMap Formula.kinds ++
          (read lenient (torn.map Token.ofText)).notices.filterMap Notice.lost?).Perm
            [.mul, .sub] ∧
        (((read lenient (torn.map Token.ofText)).notices.filterMap Notice.lost?).length =
          ((read lenient (torn.map Token.ofText)).notices.map Notice.toMessage).countP
            fun message => message.severity = .warning) := by
  intro strict kept two product f lenient torn
  have hKept : (read strict (kept.map Token.ofText)).result = .ok [f] := by decide
  have hTorn : (read lenient (torn.map Token.ofText)).result =
      .ok [.coordinate .y, .coordinate .x, two] := by decide
  obtain ⟨hLeaves, -, -, hStrict⟩ := read_pieces_conserves hKept
  obtain ⟨-, -, -, g, hg, hSize⟩ := hStrict rfl
  obtain rfl := List.singleton_inj.mp hg
  obtain ⟨hTornLeaves, hTornOperations, hWarnings, -⟩ := read_pieces_conserves hTorn
  refine ⟨⟨hKept, ?_, hSize⟩, _, hTorn, ?_, ?_, hWarnings⟩
  · exact (List.flatMap_singleton ..).symm.trans hLeaves
  · exact hTornLeaves
  · exact hTornOperations

end Reading

end Formulas
