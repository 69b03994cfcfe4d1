import Formulas.Proofs.Workspace.Contents
import Formulas.Proofs.Workspace.Slope

/-! What a workspace remembers is never seen. Whatever was asked before, a call is answered as if
the answer had been found anew. -/
namespace Formulas

open Workspace

variable {book later : List Formula}

/-- The nodes of an expression are in the book, and its texts are those of its formula. -/
structure Expression.Fits (book : List Formula) (e : Expression) : Prop where
  root : e.root.IsListed book
  texts : ∀ ⦃form text⦄, e.texts.lookup form = some text → textIn form e.formula = .ok text

/-- An expression that fits the book, and its formula. -/
structure Expression.Shows (book : List Formula) (e : Expression) (f : Formula) : Prop where
  fits : e.Fits book
  formula_eq : e.formula = f

namespace Workspace

/-- What the nodes and the expressions of a workspace remember is true. -/
structure Fits (book : List Formula) (w : Workspace) : Prop where
  memory : Memory.Fits book w.memory
  registers : ∀ ⦃name e⦄, w.registers.lookup name = some e → e.Fits book

/-- Each address stands for one formula, of which all that is remembered there is true. -/
def IsSound (w : Workspace) : Prop :=
  ∃ book, w.Fits book

/-- The same answer and the same formulas, and what is remembered is still true. -/
structure Follows {α : Type} (outcome : α × Workspace) (expected : α × Contents) : Prop where
  answer : outcome.1 = expected.1
  contents : outcome.2.contents = expected.2
  sound : outcome.2.IsSound

end Workspace

/-! What an expression answers. -/

namespace Expression

variable {e : Expression}

theorem Fits.mono (hPrefix : book <+: later) (hFits : e.Fits book) : e.Fits later :=
  ⟨hFits.root.mono hPrefix, hFits.texts⟩

/-- An expression that has not been written yet. -/
theorem fits_unwritten {node : Node} (hListed : node.IsListed book) : Fits book ⟨node, []⟩ :=
  ⟨hListed, nofun⟩

/-- The text that is remembered is the one that would be found. One that cannot be found is not
remembered. -/
theorem render_related {f : Formula} (hShows : e.Shows book f) (form : String) :
    Result.AreRelated (fun rendered text => rendered.1 = text ∧ rendered.2.Shows book f)
      (e.render form) (textIn form f) := by
  obtain ⟨hFits, rfl⟩ := hShows
  unfold render
  cases hKnown : e.texts.lookup form with
  | some text =>
      rw [hFits.texts hKnown]
      exact .ok ⟨rfl, hFits, rfl⟩
  | none =>
      cases hText : textIn form e.formula with
      | error what => exact .error what
      | ok text =>
          refine .ok ⟨rfl, ⟨hFits.root, fun other found hFound => ?_⟩, rfl⟩
          rw [List.lookup_cons] at hFound
          split at hFound
          · next hSame =>
              obtain rfl := Option.some.inj hFound
              rwa [beq_iff_eq.mp hSame]
          · exact hFits.texts hFound

end Expression

/-- An operand is chosen from nodes as it is from their formulas. -/
theorem Node.operand_related {node : Node} (hListed : node.IsListed book) (index : Int) :
    Result.AreRelated (Node.Shows book) (node.operand index) (node.plain.operand index) := by
  cases hListed with
  | constant hEntry => exact .error Fault.leaf
  | coordinate hEntry => exact .error Fault.leaf
  | @operation op operands address hEntry hOperands =>
      rw [Node.plain_operation]
      simp only [Node.operand, Formula.operand, choose, List.length_map]
      split
      · next n _ =>
          rw [List.getElem?_map]
          cases hOperand : operands[n]? with
          | none => exact .error _
          | some operand => exact .ok ⟨hOperands _ (List.mem_of_getElem? hOperand), rfl⟩
      · exact .error _

namespace Workspace

variable {w : Workspace}

theorem Fits.sound (hFits : w.Fits book) : w.IsSound := ⟨book, hFits⟩

theorem Fits.find_related (hFits : w.Fits book) (name : String) :
    Result.AreRelated (fun e f => e.Shows book f ∧ w.contents name = some f) (w.find name)
      (w.contents.find name) := by
  rw [find_contents]
  unfold find contents
  cases hFound : w.registers.lookup name with
  | none => exact .error _
  | some e => exact .ok ⟨⟨hFits.registers hFound, rfl⟩, rfl⟩

theorem Fits.put (hFits : w.Fits book) {e : Expression} (hNew : e.Fits book) (target : String) :
    (w.put target e).Fits book where
  memory := hFits.memory
  registers name other hFound := by
    rw [lookup_put] at hFound
    split_ifs at hFound
    · exact Option.some.inj hFound ▸ hNew
    · exact hFits.registers hFound

/-- A change of what the nodes remember. -/
theorem Fits.recollect (hFits : w.Fits book) (hPrefix : book <+: later) {memory : Memory}
    (hMemory : Memory.Fits later memory) : Fits later { w with memory := memory } where
  memory := hMemory
  registers _ _ hFound := (hFits.registers hFound).mono hPrefix

/-! How answers follow those that are found anew. -/

theorem follows_orFault {α β : Type} {related : α → β → Prop} {found : Except Fault α}
    {expected : Except Fault β} {next : α → Reply × Workspace} {next' : β → Reply × Contents}
    (hSound : w.IsSound) (hFound : Result.AreRelated related found expected)
    (hNext : ∀ a b, related a b → Follows (next a) (next' b)) :
    Follows (orFault w found next) (orFault w.contents expected next') := by
  cases hFound with
  | ok hRelated => exact hNext _ _ hRelated
  | error what => exact ⟨rfl, rfl, hSound⟩

theorem follows_put (hFits : w.Fits book) {e : Expression} {f : Formula}
    (hShows : e.Shows book f) (target : String) (reply : Reply) :
    Follows (reply, w.put target e) (reply, w.contents.put target f) := by
  refine ⟨rfl, ?_, (hFits.put hShows.fits target).sound⟩
  rw [contents_put, hShows.formula_eq]

theorem follows_store (hFits : w.Fits book) (target : String) {making : Making Node}
    {expected : Except Failure Formula} (hMaking : Makes Node.Shows book making expected) :
    Follows (w.store target making) (w.contents.store target expected) := by
  obtain ⟨after, hAfter, hMemory, hMade⟩ := hMaking List.prefix_rfl hFits.memory
  have hKept := hFits.recollect hAfter hMemory
  refine follows_orFault hKept.sound (hMade.mapError _) fun node f hNode => ?_
  exact follows_put hKept ⟨Expression.fits_unwritten hNode.listed, hNode.plain_eq⟩ target _

/-- A feature that is asked for is the one that would be found, and all that is remembered from
then on is true. -/
theorem ask_spec (hFits : w.Fits book) {α : Type} {feature : Feature α} (hTrue : feature.IsTrue)
    {e : Expression} {f : Formula} (hShows : e.Shows book f) :
    (w.ask feature e).1 = feature.ofFormula f ∧
      (w.ask feature e).2.contents = w.contents ∧
      ∃ later, book <+: later ∧ (w.ask feature e).2.Fits later := by
  obtain ⟨after, hAfter, hMemory, hSame⟩ :=
    Feature.gives_ask hTrue hShows.fits.root List.prefix_rfl hFits.memory
  refine ⟨hSame.trans (congrArg _ hShows.formula_eq), rfl, after, hAfter, hFits.recollect hAfter hMemory⟩

/-- Each call is answered as if the answer had been found anew. -/
theorem follows_answer (hSound : w.IsSound) (call : Call) :
    Follows (w.answer call) (w.contents.answer call) := by
  obtain ⟨book, hFits⟩ := hSound
  have hFind := hFits.find_related
  cases call with
  | place target f => exact follows_store hFits target (.lift (Node.gives_lay book f))
  | combine target op sources =>
      have hAll : Result.AreRelated (List.Forall₂ (Expression.Shows book)) (sources.mapM w.find)
          (sources.mapM w.contents.find) :=
        .mapM sources fun name => (hFind name).imp fun _ _ hFound => hFound.1
      refine follows_orFault hFits.sound hAll fun operands fs hOperands => ?_
      refine follows_store hFits target (.lift (Node.gives_make_operation op ?_))
      exact List.forall₂_map_left_iff.mpr
        (hOperands.imp fun _ _ hShows => ⟨hShows.fits.root, hShows.formula_eq⟩)
  | differentiate target source name =>
      refine follows_orFault hFits.sound (hFind source) fun e f ⟨hShows, _⟩ => ?_
      -- The size is remembered even where there is no derivative.
      obtain ⟨-, hContents, later, hLater, hAsked⟩ := ask_spec hFits Feature.isTrue_size hShows
      have hSlope := Node.makes_differentiate name (hShows.fits.root.mono hLater)
      rw [← hContents, ← hShows.formula_eq]
      exact follows_store hAsked target hSlope
  | copy target source =>
      refine follows_orFault hFits.sound (hFind source) fun e f ⟨hShows, _⟩ => ?_
      exact follows_store hFits target
        (.lift (Node.gives_copy ⟨hShows.fits.root, hShows.formula_eq⟩))
  | operand target source index =>
      refine follows_orFault hFits.sound (hFind source) fun e f ⟨hShows, _⟩ => ?_
      have hOperand := Node.operand_related hShows.fits.root index
      rw [← hShows.formula_eq]
      refine follows_orFault hFits.sound hOperand fun node g hNode => ?_
      exact follows_put hFits ⟨Expression.fits_unwritten hNode.listed, hNode.plain_eq⟩ target _
  | render source form =>
      refine follows_orFault hFits.sound (hFind source) fun e f ⟨hShows, hHeld⟩ => ?_
      refine follows_orFault hFits.sound (Expression.render_related hShows form) ?_
      rintro rendered text ⟨rfl, hRendered⟩
      have hPut := follows_put hFits hRendered source (.text rendered.1)
      rwa [Contents.put_eq_self hHeld] at hPut
  | size source =>
      refine follows_orFault hFits.sound (hFind source) fun e f ⟨hShows, _⟩ => ?_
      obtain ⟨hSize, hContents, later, -, hLater⟩ := ask_spec hFits Feature.isTrue_size hShows
      exact ⟨congrArg Reply.count hSize, hContents, hLater.sound⟩
  | digest source =>
      refine follows_orFault hFits.sound (hFind source) fun e f ⟨hShows, _⟩ => ?_
      obtain ⟨hDigest, hContents, later, -, hLater⟩ := ask_spec hFits Feature.isTrue_digest hShows
      exact ⟨congrArg Reply.digest hDigest, hContents, hLater.sound⟩
  | agree left right =>
      refine follows_orFault hFits.sound (hFind left) fun a f ⟨hLeft, _⟩ => ?_
      refine follows_orFault hFits.sound (hFind right) fun b g ⟨hRight, _⟩ => ?_
      rw [hLeft.formula_eq, hRight.formula_eq]
      exact ⟨rfl, rfl, hFits.sound⟩

/-- So are calls in order. -/
theorem follows_answers (hSound : w.IsSound) (calls : List Call) :
    Follows (w.answers calls) (w.contents.answers calls) := by
  induction calls generalizing w with
  | nil => exact ⟨rfl, rfl, hSound⟩
  | cons call rest ih =>
      obtain ⟨hAnswer, hContents, hLater⟩ := follows_answer hSound call
      obtain ⟨hOthers, hEnd, hLast⟩ := ih hLater
      rw [hContents] at hOthers hEnd
      exact ⟨congrArg₂ List.cons hAnswer hOthers, hEnd, hLast⟩

theorem isSound_empty : empty.IsSound :=
  ⟨[], ⟨rfl, nofun⟩, nofun⟩

/-- A fault leaves all as it is, if those do that come later. -/
theorem orFault_of_fault {α σ : Type} {state : σ} {found : Except Fault α} {next : α → Reply × σ}
    {what : Fault} (hNext : ∀ a, (next a).1 = .fault what → (next a).2 = state)
    (hFault : (orFault state found next).1 = .fault what) :
    (orFault state found next).2 = state := by
  cases found with
  | ok a => exact hNext a hFault
  | error _ => rfl

theorem answer_of_render_fault {source form : String} {what : Fault}
    (hFault : (w.answer (.render source form)).1 = .fault what) :
    (w.answer (.render source form)).2 = w :=
  orFault_of_fault (fun _ => orFault_of_fault nofun) hFault

/-- Whatever is asked of a workspace, and whatever fails, each call is answered as it would be if
nothing were remembered, and then the registers hold the same formulas. What is remembered is true
of every node, and a text that cannot be found leaves everything as it was. -/
theorem answers_unremembered (calls : List Call) :
    Follows (empty.answers calls) (Contents.empty.answers calls) ∧
      ∀ source form what,
        ((empty.answers calls).2.answer (.render source form)).1 = .fault what →
          ((empty.answers calls).2.answer (.render source form)).2 = (empty.answers calls).2 :=
  ⟨follows_answers isSound_empty calls, fun _ _ _ => answer_of_render_fault⟩

/-- Both operands of a mean are one node. -/
theorem answers_unremembered_shared :
    let sum : Formula := .operation .add [.coordinate .x, .coordinate .y]
    let calls : List Call := [.place "sum" sum, .combine "mean" .geomMean ["sum", "sum"],
      .size "mean", .render "mean" "sidewise", .differentiate "slope" "mean" "x",
      .operand "second" "mean" (-1), .agree "second" "sum", .render "second" "infix",
      .render "second" "infix", .size "sum"]
    let w : Workspace := (empty.answers calls).2
    (empty.answers calls).1 = [.stored, .stored, .count 7, .fault (.unknownNotation "sidewise"),
        .stored, .stored, .verdict true, .text "(x + y)", .text "(x + y)", .count 3] ∧
      Follows (empty.answers calls) (Contents.empty.answers calls) ∧
      (w.answer (.render "second" "sidewise")).1 = .fault (.unknownNotation "sidewise") ∧
      (w.answer (.render "second" "sidewise")).2 = w := by
  intro sum calls w
  obtain ⟨hFollows, hFault⟩ := answers_unremembered calls
  have hUnknown : (w.answer (.render "second" "sidewise")).1 =
      .fault (.unknownNotation "sidewise") := by decide
  exact ⟨by decide, hFollows, hUnknown, hFault _ _ _ hUnknown⟩

end Workspace

end Formulas
