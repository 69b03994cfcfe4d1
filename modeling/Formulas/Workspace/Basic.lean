import Formulas.Formula.Derivative
import Formulas.Formula.Rendering
import Formulas.Workspace.Slope
/-! A workspace keeps expressions in named registers. Calls build expressions from those in
the registers and ask questions about them. Expressions may have nodes in common, and what an
answer made a node remember, every expression remembers that has it. -/
namespace Formulas

/-- A formula that also remembers its texts, by the names of the notations asked for so far. -/
structure Expression where
  root : Node
  texts : List (String × String)

/-- The expressions in the registers and what their nodes remember. The latest entry of a name
is the one that counts. -/
structure Workspace where
  registers : List (String × Expression)
  memory : Memory

namespace Workspace

/-- A call stores its result in `target`; the others only answer. -/
inductive Call where
  | place (target : String) (f : Formula)
  | combine (target : String) (op : Operation) (sources : List String)
  | differentiate (target source name : String)
  | copy (target source : String)
  | operand (target source : String) (index : Int)
  | render (source form : String)
  | size (source : String)
  | digest (source : String)
  | agree (left right : String)

/-- Why a call fails. -/
inductive Fault where
  | emptyRegister (name : String)
  | leaf
  | noOperand (index : Int)
  | unknownNotation (name : String)
  | unwritable
  | failure (what : Failure)
  deriving DecidableEq

/-- The answer to a call. -/
inductive Reply where
  | stored
  | text (value : String)
  | count (value : Nat)
  | digest (value : UInt64)
  | verdict (value : Bool)
  | fault (what : Fault)
  deriving DecidableEq

/-- A fault is the answer for what is missing, and all is left as it is. -/
def orFault {σ α : Type} (state : σ) (found : Except Fault α) (next : α → Reply × σ) :
    Reply × σ :=
  match found with
  | .ok a => next a
  | .error what => (.fault what, state)

/-- A member of a list by its position, which counts from the end if it is negative. -/
def choose {α : Type} (operands : List α) (index : Int) : Except Fault α :=
  match if index < 0 then index + operands.length else index with
  | .ofNat n =>
    match operands[n]? with
    | some operand => .ok operand
    | none => .error (.noOperand index)
  | .negSucc _ => .error (.noOperand index)

/-- The text of a formula in the notation of the given name. -/
def textIn (form : String) (f : Formula) : Except Fault String :=
  match Notation.ofName? form with
  | none => .error (.unknownNotation form)
  | some known =>
    match f.text? known with
    | some text => .ok text
    | none => .error .unwritable

end Workspace

open Workspace

/-- An operand of a node by its position. -/
def Node.operand (node : Node) (index : Int) : Except Fault Node :=
  match node with
  | .operation _ operands _ => choose operands index
  | _ => .error .leaf

namespace Expression

/-- The formula itself. -/
def formula (e : Expression) : Formula := e.root.plain

/-- The remembered text, or the text that is found and remembered now. -/
def render (form : String) (e : Expression) : Except Fault (String × Expression) :=
  match e.texts.lookup form with
  | some text => .ok (text, e)
  | none => do
    let text ← textIn form e.formula
    .ok (text, { e with texts := (form, text) :: e.texts })

end Expression

namespace Workspace

def empty : Workspace := ⟨[], #[]⟩

/-- The expression in a register. -/
def find (w : Workspace) (name : String) : Except Fault Expression :=
  match w.registers.lookup name with
  | some e => .ok e
  | none => .error (.emptyRegister name)

/-- Puts an expression into a register. -/
def put (w : Workspace) (name : String) (e : Expression) : Workspace :=
  { w with registers := (name, e) :: w.registers }

/-- Makes nodes and puts the last of them into a register, as an expression without texts. -/
def store (w : Workspace) (target : String) (making : Making Node) : Reply × Workspace :=
  let made := making.run w.memory
  let w := { w with memory := made.2 }
  orFault w (made.1.mapError .failure) fun root => (.stored, w.put target ⟨root, []⟩)

/-- A feature of an expression, which its nodes remember from now on. -/
def ask {α : Type} (w : Workspace) (feature : Feature α) (e : Expression) : α × Workspace :=
  let asked := feature.ask e.root w.memory
  (asked.1, { w with memory := asked.2 })

/-- The answer to a call and the workspace after it. Expressions report their size before they
are differentiated. -/
def answer (w : Workspace) : Call → Reply × Workspace
  | .place target f => w.store target (liftM (Node.lay f))
  | .combine target op sources =>
    orFault w (sources.mapM w.find) fun operands =>
      w.store target (liftM (Node.make (.operation op (operands.map Expression.root))))
  | .differentiate target source name =>
    orFault w (w.find source) fun e =>
      (w.ask .size e).2.store target (e.root.differentiate name)
  | .copy target source =>
    orFault w (w.find source) fun e => w.store target (liftM e.root.copy)
  | .operand target source index =>
    orFault w (w.find source) fun e =>
      orFault w (e.root.operand index) fun node => (.stored, w.put target ⟨node, []⟩)
  | .render source form =>
    orFault w (w.find source) fun e =>
      orFault w (e.render form) fun rendered => (.text rendered.1, w.put source rendered.2)
  | .size source =>
    orFault w (w.find source) fun e => ((w.ask .size e).map .count id)
  | .digest source =>
    orFault w (w.find source) fun e => ((w.ask .digest e).map .digest id)
  | .agree left right =>
    orFault w (w.find left) fun a =>
      orFault w (w.find right) fun b => (.verdict (a.formula.agrees b.formula), w)

/-- The answers to calls in order, and the workspace after all of them. -/
def answers (w : Workspace) : List Call → List Reply × Workspace
  | [] => ([], w)
  | call :: rest =>
    let first := w.answer call
    let others := answers first.2 rest
    (first.1 :: others.1, others.2)

end Workspace

end Formulas
