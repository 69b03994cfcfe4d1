import Formulas.Reading.State
/-! Reading formulas from tokens and texts. Text with the operation before its operands is
read from back to front, where the two brackets change their roles. -/
namespace Formulas.Reading

/-- Ends the current group and all groups around it. -/
def finishGroups (s : Settings) (stack : List Formula) (notices : List Notice)
    (group : Group) : List Group → Except Mistake (List Formula × List Notice)
  | [] => flush s stack notices group.waiting
  | parent :: outer => do
    let (stack, notices) ← flush s stack notices group.waiting
    let settled := settle s stack parent.waiting
    finishGroups s settled.1 notices { parent with waiting := settled.2 } outer

/-- Ends the text. Strict reading wants all groups closed and one formula left. -/
def State.finish (s : Settings) (st : State) : Except Mistake (List Formula × List Notice) :=
  if s.strict ∧ st.outer ≠ [] then .error .unbalanced
  else do
    let (stack, notices) ← finishGroups s st.stack st.notices st.group st.outer
    if s.strict ∧ stack.length ≠ 1 then .error (.fewOperations (.itemsLeft stack.length))
    else .ok (stack, notices)

/-- How reading ended: the formulas left on the stack, top first, or the fault that stopped
it, and all notices in order. -/
structure Outcome where
  result : Except Fault (List Formula)
  notices : List Notice

/-- The formula that was read first, if any was. -/
def Outcome.root? (outcome : Outcome) : Except Fault (Option Formula) :=
  outcome.result.map List.getLast?

/-- Reading stops at a fault; strict reading reports a mistake. -/
def stop (s : Settings) (st : State) (fault : Fault) : Outcome :=
  match fault with
  | .mistake what => ⟨.error fault, (Notice.refused s.form what :: st.notices).reverse⟩
  | .numeralTooLong => ⟨.error fault, st.notices.reverse⟩

/-- Reads the tokens that are left; `count` is the number of all tokens. -/
def run (s : Settings) (count : Nat) (st : State) : List Token → Outcome
  | [] =>
    match st.finish s with
    | .ok (stack, notices) => ⟨.ok stack, (Notice.finished count s :: notices).reverse⟩
    | .error what => stop s st (.mistake what)
  | token :: rest =>
    match st.step s token rest.head? with
    | .ok st => run s count st rest
    | .error fault => stop s st fault

/-- The tokens in the order in which they are read. -/
def Settings.order (s : Settings) (tokens : List Token) : List Token :=
  if s.isBackward then tokens.reverse else tokens

/-- Reads a list of tokens. -/
def read (s : Settings) (tokens : List Token) : Outcome :=
  run s tokens.length .initial (s.order tokens)

/-- Reads a text. -/
def readText (s : Settings) (text : String) : Outcome :=
  read s (Token.scan text)

end Formulas.Reading
