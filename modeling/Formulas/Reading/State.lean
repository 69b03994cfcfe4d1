import Formulas.Formula.Basic
import Formulas.Reading.Notice
import Formulas.Token
/-! The state of a reader and what one token does to it. Formulas that are complete lie
on one stack. Every open bracket starts a group at the height that the stack had then,
so that operations find only the operands of their own group.

Where an operation may stand before its operands it waits in its group, together with
the height from which its operands count. It is applied as soon as it has all of them;
one that takes any number of operands is applied when its group closes. -/
namespace Formulas.Reading

/-- An operation whose operands are those above `base`. -/
structure Waiting where
  op : Operation
  base : Nat
  deriving DecidableEq

/-- The operands of a group lie above `start`; the operation that came last is first. -/
structure Group where
  start : Nat
  waiting : List Waiting
  deriving DecidableEq

/-- The top of the stack is first, and so is the innermost of the groups around the
current one. The latest notice is first. -/
structure State where
  stack : List Formula
  group : Group
  outer : List Group
  notices : List Notice

/-- Nothing has been read; the group is the whole text. -/
def State.initial : State := ⟨[], ⟨0, []⟩, [], []⟩

namespace Settings

/-- Text with the operation before its operands is read from back to front. -/
def isBackward (s : Settings) : Bool :=
  s.form = .prefixed

/-- The bracket that is met first in a group. -/
def opener (s : Settings) : Token :=
  if s.isBackward then .closer else .opener

/-- The bracket that is met last in a group. -/
def closer (s : Settings) : Token :=
  if s.isBackward then .opener else .closer

/-- The operands of an operation, from the formulas taken off the stack, top first. -/
def arrange (s : Settings) (taken : List Formula) : List Formula :=
  if s.isBackward then taken else taken.reverse

@[simp] theorem closer_prefixed (strict : Bool) : closer ⟨.prefixed, strict⟩ = .opener := rfl

@[simp] theorem closer_postfixed (strict : Bool) : closer ⟨.postfixed, strict⟩ = .closer := rfl

/-- Where brackets keep their roles. -/
theorem opener_of_forward {s : Settings} (hForward : s.isBackward = false) :
    s.opener = .opener := by
  simp [opener, hForward]

end Settings

/-- Applies an operation to so many formulas on top of the stack. -/
def applyTop (s : Settings) (op : Operation) (count : Nat) (stack : List Formula) :
    List Formula :=
  .operation op (s.arrange (stack.take count)) :: stack.drop count

/-- Applies the waiting operations that have all their operands, beginning with the last
one, up to the first that has not. -/
def settle (s : Settings) (stack : List Formula) :
    List Waiting → List Formula × List Waiting
  | [] => (stack, [])
  | w :: rest =>
    match w.op.arity with
    | .variadic => (stack, w :: rest)
    | .exactly count =>
      if count ≤ stack.length - w.base then settle s (applyTop s w.op count stack) rest
      else (stack, w :: rest)

/-- Ends a group: every waiting operation takes the operands that it has, and one that has
too few is dropped, which strict reading refuses. -/
def flush (s : Settings) (stack : List Formula) (notices : List Notice) :
    List Waiting → Except Mistake (List Formula × List Notice)
  | [] => .ok (stack, notices)
  | w :: rest =>
    match w.op.arity.take? (stack.length - w.base) with
    | some count => flush s (applyTop s w.op count stack) notices rest
    | none =>
      if s.strict then .error (.fewOperands w.op.minimum w.op)
      else flush s stack (.dropped w.op :: notices) rest

namespace State

/-- The number of formulas of the current group. -/
def available (st : State) : Nat :=
  st.stack.length - st.group.start

/-- The formula on top of the stack is an operation. -/
def topIsOperation (st : State) : Bool :=
  match st.stack with
  | [] => false
  | f :: _ => f.isOperation

def note (notice : Notice) (st : State) : State :=
  { st with notices := notice :: st.notices }

/-- Applies the operations of the current group that have all their operands. -/
def settleGroup (s : Settings) (st : State) : State :=
  let settled := settle s st.stack st.group.waiting
  { st with stack := settled.1, group := { st.group with waiting := settled.2 } }

/-- Puts a formula on the stack, which may complete waiting operations. -/
def push (s : Settings) (f : Formula) (st : State) : State :=
  settleGroup s { st with stack := f :: st.stack }

/-- Opens a group at the current height. -/
def openGroup (st : State) : State :=
  { st with group := ⟨st.stack.length, []⟩, outer := st.group :: st.outer }

/-- Lets an operation wait for operands above the given height. -/
def await (op : Operation) (base : Nat) (st : State) : State :=
  { st with group := { st.group with waiting := ⟨op, base⟩ :: st.group.waiting } }

/-- Where operations may wait, one that has its operands before it is applied at once, if
no other is waiting in its group; else it waits. -/
def meetWaiting (s : Settings) (op : Operation) (st : State) : State :=
  match st.group.waiting, op.arity.take? st.available with
  | [], some count => { st with stack := applyTop s op count st.stack }
  | [], none => st.await op st.group.start
  | _ :: _, _ => st.await op st.stack.length

/-- Where operations cannot wait, one that lacks operands is passed over. Strict reading
refuses that, and an operation that is not the last token of its group. -/
def meetBracketed (s : Settings) (op : Operation) (next? : Option Token) (st : State) :
    Except Mistake State :=
  if s.strict ∧ next? ≠ some s.closer then .error (.fewOperations .closingGroup)
  else
    match op.arity.take? st.available with
    | some count => .ok { st with stack := applyTop s op count st.stack }
    | none =>
      if s.strict then .error (.fewOperands op.minimum op) else .ok (st.note (.starved op))

/-- Where operations may wait, a closing bracket ends the current group. In strict reading
the group must have come to one operation. -/
def closeWaiting (s : Settings) (st : State) : Except Mistake State :=
  match st.outer with
  | [] => if s.strict then .error .unbalanced else .ok st
  | parent :: outer => do
    let (stack, notices) ← flush s st.stack st.notices st.group.waiting
    let ended : State := { st with stack, notices }
    if s.strict ∧ ¬ (ended.available = 1 ∧ ended.topIsOperation) then
      .error (.fewOperations .unspecified)
    else .ok (settleGroup s ⟨stack, parent, outer, notices⟩)

/-- Where operations cannot wait, a closing bracket just forgets the group. In strict
reading an operation must lie on top, and no other closing bracket may follow. -/
def closeBracketed (s : Settings) (next? : Option Token) (st : State) : Except Mistake State :=
  if s.strict ∧ ¬ st.topIsOperation then .error (.fewOperations .unspecified)
  else if s.strict ∧ next? = some s.closer then .error (.fewOperations .nearBracket)
  else
    match st.outer with
    | [] => if s.strict then .error .unbalanced else .ok st
    | parent :: outer => .ok { st with group := parent, outer }

/-- A bracket opens or closes a group, depending on the direction of reading. -/
def meetBracket (s : Settings) (bracket : Token) (next? : Option Token) (st : State) :
    Except Mistake State :=
  if bracket = s.opener then .ok st.openGroup
  else if s.form.allowsWaiting then st.closeWaiting s
  else st.closeBracketed s next?

/-- Reads one token, knowing the next one. -/
def step (s : Settings) (token : Token) (next? : Option Token) (st : State) :
    Except Fault State :=
  match token with
  | .operation op =>
    if s.form.allowsWaiting then .ok (st.meetWaiting s op)
    else (st.meetBracketed s op next?).mapError .mistake
  | .coordinate which => .ok (st.push s (.coordinate which))
  | .number value => .ok (st.push s (.constant value))
  | .opener => (st.meetBracket s .opener next?).mapError .mistake
  | .closer => (st.meetBracket s .closer next?).mapError .mistake
  | .oversized => .error .numeralTooLong
  | .unknown text =>
    if s.strict then .error (.mistake (.unknownToken text))
    else .ok (st.note (.unknownToken text))

end State

end Formulas.Reading
