import Formulas.Workspace.Basic
import Mathlib.Logic.Function.Basic

/-! The formulas that a workspace holds. Nothing is remembered with them: every call is answered by
going through the formulas anew. -/
namespace Formulas

/-- An operand of a formula by its position. -/
def Formula.operand (f : Formula) (index : Int) : Except Workspace.Fault Formula :=
  match f with
  | .operation _ operands => Workspace.choose operands index
  | _ => .error .leaf

namespace Workspace

/-- The formulas in the registers. -/
abbrev Contents := String → Option Formula

namespace Contents

def empty : Contents := fun _ => none

def find (c : Contents) (name : String) : Except Fault Formula :=
  match c name with
  | some f => .ok f
  | none => .error (.emptyRegister name)

def put (c : Contents) (name : String) (f : Formula) : Contents :=
  Function.update c name (some f)

/-- Puts a formula into a register if there is one. -/
def store (c : Contents) (target : String) (made : Except Failure Formula) : Reply × Contents :=
  orFault c (made.mapError .failure) fun f => (.stored, c.put target f)

/-- The answer to a call and the contents after it. -/
def answer (c : Contents) : Call → Reply × Contents
  | .place target f => c.store target (.ok f)
  | .combine target op sources =>
    orFault c (sources.mapM c.find) fun operands => c.store target (.ok (.operation op operands))
  | .differentiate target source name =>
    orFault c (c.find source) fun f => c.store target (f.derivative name)
  | .copy target source => orFault c (c.find source) fun f => c.store target (.ok f)
  | .operand target source index =>
    orFault c (c.find source) fun f =>
      orFault c (f.operand index) fun operand => (.stored, c.put target operand)
  | .render source form =>
    orFault c (c.find source) fun f => orFault c (textIn form f) fun text => (.text text, c)
  | .size source => orFault c (c.find source) fun f => (.count f.size, c)
  | .digest source => orFault c (c.find source) fun f => (.digest f.digest, c)
  | .agree left right =>
    orFault c (c.find left) fun f =>
      orFault c (c.find right) fun g => (.verdict (f.agrees g), c)

/-- The answers to calls in order, and the contents after all of them. -/
def answers (c : Contents) : List Call → List Reply × Contents
  | [] => ([], c)
  | call :: rest =>
    let first := c.answer call
    let others := answers first.2 rest
    (first.1 :: others.1, others.2)

/-- A formula that is put where it stands already. -/
theorem put_eq_self {c : Contents} {name : String} {f : Formula} (hHeld : c name = some f) :
    c.put name f = c := by
  rw [put, ← hHeld, Function.update_eq_self]

end Contents

/-- The formulas in the registers of a workspace. -/
def contents (w : Workspace) : Contents :=
  fun name => (w.registers.lookup name).map Expression.formula

theorem find_contents (w : Workspace) (name : String) :
    w.contents.find name = (w.find name).map Expression.formula := by
  unfold find Contents.find contents
  cases w.registers.lookup name <;> rfl

/-- An entry that is put in front hides those of the same name. -/
theorem lookup_put (w : Workspace) (target name : String) (e : Expression) :
    (w.put target e).registers.lookup name =
      if name = target then some e else w.registers.lookup name := by
  rw [put, List.lookup_cons]
  by_cases hSame : name = target
  · rw [if_pos hSame, beq_iff_eq.mpr hSame]
  · rw [if_neg hSame, beq_eq_false_iff_ne.mpr hSame]

theorem contents_put (w : Workspace) (target : String) (e : Expression) :
    (w.put target e).contents = w.contents.put target e.formula := by
  funext name
  rw [contents, lookup_put, Contents.put, Function.update_apply]
  by_cases hSame : name = target
  · rw [if_pos hSame, if_pos hSame, Option.map_some]
  · rw [if_neg hSame, if_neg hSame, contents]

end Workspace

end Formulas
