import Formulas.Proofs.Token.Run
import Mathlib.Data.List.Chain

/-! Texts as pieces with blanks around them. A text is laid out in one way as single brackets and
runs that nothing but blanks separates, and a text that is laid out is split into just these pieces.
So the blanks decide nothing but where a run ends. -/
namespace Formulas.Token

/-- Nothing but blanks. -/
def IsGap (chars : List Char) : Prop :=
  ∀ c ∈ chars, Text.isBlank c = true

/-- A single bracket, or a run. -/
def IsPiece (chars : List Char) : Prop :=
  (∃ c, isBracket c = true ∧ chars = [c]) ∨ IsRun chars

variable {c : Char} {rest gap : List Char}

theorem isBlank_of_isBracket (hBracket : isBracket c = true) : Text.isBlank c = false := by
  simp only [isBracket, decide_eq_true_eq] at hBracket
  rcases hBracket with rfl | rfl <;> decide

theorem isRunChar_of_isBlank (hBlank : Text.isBlank c = true) : isRunChar c = false := by
  simp [isRunChar, hBlank]

theorem isRunChar_of_isBracket (hBracket : isBracket c = true) : isRunChar c = false := by
  simp [isRunChar, hBracket]

/-- A character is blank, a bracket or a part of a run. -/
theorem char_cases (c : Char) :
    Text.isBlank c = true ∨ isBracket c = true ∨ isRunChar c = true := by
  cases hBlank : Text.isBlank c <;> cases hBracket : isBracket c <;> simp [isRunChar, *]

theorem pieces_cons_blank (hBlank : Text.isBlank c = true) : pieces (c :: rest) = pieces rest := by
  rw [pieces, if_pos hBlank]

theorem pieces_cons_bracket (hBracket : isBracket c = true) :
    pieces (c :: rest) = [c] :: pieces rest := by
  rw [pieces, if_neg (by simp [isBlank_of_isBracket hBracket]), if_pos hBracket]

/-- What a gap is put in front of is split as before. -/
theorem pieces_gap_append (hGap : IsGap gap) : pieces (gap ++ rest) = pieces rest := by
  induction gap with
  | nil => rfl
  | cons c gap ih =>
      obtain ⟨hBlank, hGap⟩ := List.forall_mem_cons.mp hGap
      rw [List.cons_append, pieces_cons_blank hBlank, ih hGap]

theorem startsRun_append_of_isGap (hGap : IsGap gap) (hSome : gap ≠ []) :
    startsRun (gap ++ rest) = false := by
  obtain ⟨c, gap, rfl⟩ := List.exists_cons_of_ne_nil hSome
  exact isRunChar_of_isBlank (hGap c (List.mem_cons_self ..))

/-- The text of pieces, each with the blanks behind it. -/
def spell (parts : List (List Char × List Char)) : List Char :=
  parts.flatMap fun part => part.1 ++ part.2

/-- Pieces with the blanks behind each, which are only missing where no two runs would touch. -/
structure AreSpaced (parts : List (List Char × List Char)) : Prop where
  isPiece : ∀ part ∈ parts, IsPiece part.1
  isGap : ∀ part ∈ parts, IsGap part.2
  apart : parts.IsChain fun part next => IsRun part.1 → IsRun next.1 → part.2 ≠ []

variable {part : List Char × List Char} {parts more : List (List Char × List Char)}

theorem areSpaced_nil : AreSpaced [] :=
  ⟨by simp, by simp, List.isChain_nil⟩

theorem areSpaced_cons : AreSpaced (part :: parts) ↔ IsPiece part.1 ∧ IsGap part.2 ∧
    (∀ next ∈ parts.head?, IsRun part.1 → IsRun next.1 → part.2 ≠ []) ∧ AreSpaced parts := by
  constructor
  · rintro ⟨hPiece, hGap, hApart⟩
    obtain ⟨hNext, hApart⟩ := List.isChain_cons.mp hApart
    exact ⟨hPiece _ (List.mem_cons_self ..), hGap _ (List.mem_cons_self ..), hNext,
      fun p hp => hPiece p (List.mem_cons_of_mem _ hp),
      fun p hp => hGap p (List.mem_cons_of_mem _ hp), hApart⟩
  · rintro ⟨hPiece, hGap, hNext, hRest⟩
    exact ⟨List.forall_mem_cons.mpr ⟨hPiece, hRest.isPiece⟩,
      List.forall_mem_cons.mpr ⟨hGap, hRest.isGap⟩, List.isChain_cons.mpr ⟨hNext, hRest.apart⟩⟩

theorem areSpaced_append (hSpaced : AreSpaced (parts ++ more)) :
    AreSpaced parts ∧ AreSpaced more :=
  ⟨⟨fun p hp => hSpaced.isPiece p (List.mem_append_left _ hp),
      fun p hp => hSpaced.isGap p (List.mem_append_left _ hp), hSpaced.apart.left_of_append⟩,
    ⟨fun p hp => hSpaced.isPiece p (List.mem_append_right _ hp),
      fun p hp => hSpaced.isGap p (List.mem_append_right _ hp), hSpaced.apart.right_of_append⟩⟩

/-- The text starts with a run if the first piece is one. -/
theorem startsRun_spell (hSpaced : AreSpaced (part :: parts)) :
    startsRun (spell (part :: parts)) = true ↔ IsRun part.1 := by
  obtain ⟨piece, gap⟩ := part
  rcases (areSpaced_cons.mp hSpaced).1 with ⟨c, hBracket, hPiece⟩ | hRun
  · obtain rfl : piece = [c] := hPiece
    have hNone : isRunChar c = false := isRunChar_of_isBracket hBracket
    refine iff_of_false ?_ fun hRun => ?_
    · simp [spell, startsRun, hNone]
    · exact Bool.false_ne_true (hNone.symm.trans (hRun.2 c (List.mem_cons_self ..)))
  · refine iff_of_true ?_ hRun
    obtain ⟨c, piece, rfl⟩ := List.exists_cons_of_ne_nil hRun.1
    exact hRun.2 c (List.mem_cons_self ..)

/-- Behind a run with its blanks no run goes on. -/
theorem startsRun_behind (hSpaced : AreSpaced (part :: parts)) (hRun : IsRun part.1) :
    startsRun (part.2 ++ spell parts) = false := by
  obtain ⟨-, hGap, hNext, hRest⟩ := areSpaced_cons.mp hSpaced
  by_cases hSome : part.2 = []
  · rw [hSome, List.nil_append]
    cases parts with
    | nil => rfl
    | cons next parts =>
        rw [Bool.eq_false_iff, ne_eq, startsRun_spell hRest]
        exact fun hNextRun => hNext next rfl hRun hNextRun hSome
  · exact startsRun_append_of_isGap hGap hSome

theorem spell_cons : spell (part :: parts) = part.1 ++ (part.2 ++ spell parts) := by
  rw [spell, List.flatMap_cons, List.append_assoc]
  rfl

/-- A text of pieces with blanks is split into the pieces. -/
theorem pieces_spell (hSpaced : AreSpaced parts) : pieces (spell parts) = parts.map Prod.fst := by
  induction parts with
  | nil => rfl
  | cons part parts ih =>
      obtain ⟨hPiece, hGap, -, hRest⟩ := areSpaced_cons.mp hSpaced
      rw [spell_cons, List.map_cons, ← ih hRest]
      rcases hPiece with ⟨c, hBracket, hPiece⟩ | hRun
      · rw [hPiece, List.singleton_append, pieces_cons_bracket hBracket, pieces_gap_append hGap]
      · rw [pieces_run_append hRun (startsRun_behind hSpaced hRun), pieces_gap_append hGap]

/-- A text that is laid out: pieces with blanks in front of and behind each. -/
structure Layout where
  lead : List Char
  parts : List (List Char × List Char)
  isGap_lead : IsGap lead
  areSpaced : AreSpaced parts

namespace Layout

def chars (layout : Layout) : List Char :=
  layout.lead ++ spell layout.parts

def text (layout : Layout) : String :=
  String.ofList layout.chars

def pieces (layout : Layout) : List String :=
  layout.parts.map fun part => String.ofList part.1

theorem pieces_chars (layout : Layout) :
    Token.pieces layout.chars = layout.parts.map Prod.fst := by
  rw [chars, pieces_gap_append layout.isGap_lead, pieces_spell layout.areSpaced]

theorem split_text (layout : Layout) : split layout.text = layout.pieces := by
  rw [split, text, String.toList_ofList, pieces_chars, List.map_map]
  rfl

/-- One more character of a run in front. -/
theorem exists_cons_run (hRun : isRunChar c = true) (layout : Layout) :
    ∃ extended : Layout, extended.chars = c :: layout.chars := by
  obtain ⟨lead, parts, hLead, hSpaced⟩ := layout
  by_cases hAlone : lead = [] ∧ startsRun (spell parts) = true
  · -- The run that the text starts with becomes longer.
    obtain ⟨rfl, hStarts⟩ := hAlone
    cases parts with
    | nil => exact absurd hStarts Bool.false_ne_true
    | cons part parts =>
        obtain ⟨-, hGap, hNext, hRest⟩ := areSpaced_cons.mp hSpaced
        have hFirst : IsRun part.1 := (startsRun_spell hSpaced).mp hStarts
        have hLonger : IsRun (c :: part.1) :=
          ⟨List.cons_ne_nil _ _, List.forall_mem_cons.mpr ⟨hRun, hFirst.2⟩⟩
        refine ⟨⟨[], (c :: part.1, part.2) :: parts, hLead, areSpaced_cons.mpr
          ⟨.inr hLonger, hGap, fun next hMem _ => hNext next hMem hFirst, hRest⟩⟩, rfl⟩
  · have hSingle : IsRun [c] := ⟨List.cons_ne_nil _ _, by simpa using hRun⟩
    refine ⟨⟨[], ([c], lead) :: parts, by simp [IsGap], areSpaced_cons.mpr
      ⟨.inr hSingle, hLead, fun next hMem _ hNext hNone => hAlone ⟨hNone, ?_⟩, hSpaced⟩⟩, ?_⟩
    · cases parts with
      | nil => exact absurd hMem (by simp)
      | cons part parts =>
          obtain rfl : part = next := by simpa using hMem
          exact (startsRun_spell hSpaced).mpr hNext
    · simp [chars, spell_cons]

/-- Every text is laid out. -/
theorem exists_chars (chars : List Char) : ∃ layout : Layout, layout.chars = chars := by
  induction chars with
  | nil => exact ⟨⟨[], [], by simp [IsGap], areSpaced_nil⟩, rfl⟩
  | cons c rest ih =>
      obtain ⟨layout, hLayout⟩ := ih
      rcases char_cases c with hBlank | hBracket | hRun
      · refine ⟨⟨c :: layout.lead, layout.parts,
          List.forall_mem_cons.mpr ⟨hBlank, layout.isGap_lead⟩, layout.areSpaced⟩, ?_⟩
        rw [← hLayout]
        rfl
      · have hNoRun : ¬ IsRun [c] := fun hRun => by
          simpa [isRunChar_of_isBracket hBracket] using hRun.2
        refine ⟨⟨[], ([c], layout.lead) :: layout.parts, by simp [IsGap], areSpaced_cons.mpr
          ⟨.inl ⟨c, hBracket, rfl⟩, layout.isGap_lead, fun _ _ hRun => absurd hRun hNoRun,
            layout.areSpaced⟩⟩, ?_⟩
        rw [← hLayout]
        simp [Layout.chars, spell_cons]
      · obtain ⟨extended, hExtended⟩ := exists_cons_run hRun layout
        exact ⟨extended, hExtended.trans (congrArg _ hLayout)⟩

end Layout

end Formulas.Token
