import Formulas.Proofs.Token.Layout
import Formulas.Reading.Basic

/-! How a text is split. The pieces are the single brackets and the runs that go on neither in
front nor behind, nothing but blanks is lost between them, and a text with the same pieces in
another layout is read in the same way. -/
namespace Formulas.Token

/-- The characters end with a run. -/
def endsRun (chars : List Char) : Bool :=
  chars.getLast?.any isRunChar

/-- Between these characters the piece is a bracket, or a run that goes on neither in front nor
behind. -/
def IsWhole (before piece behind : List Char) : Prop :=
  (∃ c, isBracket c = true ∧ piece = [c]) ∨
    IsRun piece ∧ endsRun before = false ∧ startsRun behind = false

/-- A text cut at every bracket and every blank; the places of the cuts are kept. -/
def cut : List Char → List (List Char)
  | [] => [[]]
  | c :: rest =>
    if isBracket c ∨ Text.isBlank c then [] :: [c] :: cut rest
    else (cut rest).modifyHead (c :: ·)

/-- The part of a text is not empty, and not all of it is blank. -/
def isKept (part : List Char) : Bool :=
  part ≠ [] ∧ ¬ part.all Text.isBlank

variable {c : Char} {front back gap piece before behind rest : List Char}

/-- The first part of a text that is cut is the run that the text starts with, if there is one. -/
theorem exists_cut (chars : List Char) : ∃ run more, cut chars = run :: more ∧
    (run = [] ↔ startsRun chars = false) ∧ ∀ c ∈ run, isRunChar c = true := by
  induction chars with
  | nil => exact ⟨[], [], rfl, by simp [startsRun], by simp⟩
  | cons c rest ih =>
      obtain ⟨run, more, hCut, -, hRun⟩ := ih
      rw [cut]
      split_ifs with hPlace
      · refine ⟨[], _, rfl, iff_of_true rfl ?_, by simp⟩
        rcases hPlace with hBracket | hBlank
        · exact isRunChar_of_isBracket hBracket
        · exact isRunChar_of_isBlank hBlank
      · have hChar : isRunChar c = true := by simpa [isRunChar] using hPlace
        exact ⟨c :: run, more, by rw [hCut]; rfl, by simp [startsRun, hChar],
          List.forall_mem_cons.mpr ⟨hChar, hRun⟩⟩

theorem isBlank_of_isRunChar (hChar : isRunChar c = true) : Text.isBlank c = false := by
  cases hBlank : Text.isBlank c with
  | false => rfl
  | true => exact absurd ((isRunChar_of_isBlank hBlank).symm.trans hChar) Bool.false_ne_true

theorem isBracket_of_isRunChar (hChar : isRunChar c = true) : isBracket c = false := by
  cases hBracket : isBracket c with
  | false => rfl
  | true => exact absurd ((isRunChar_of_isBracket hBracket).symm.trans hChar) Bool.false_ne_true

/-- Splitting loses the blanks and nothing else. -/
theorem flatten_pieces (chars : List Char) :
    (pieces chars).flatten = chars.filter fun c => !Text.isBlank c := by
  fun_induction pieces chars with
  | case1 => rfl
  | case2 c rest hBlank ih => simp [hBlank, ih]
  | case3 c rest hBlank hBracket ih => simp [hBlank, ih]
  | case4 c rest hBlank hBracket run more hPieces hStarts ih =>
      rw [hPieces] at ih
      simp [hBlank, ← ih]
  | case5 c rest hBlank hBracket _ ih => simp [hBlank, ih]

/-- A run character in front of a run makes the run longer. -/
theorem exists_pieces_cons (hChar : isRunChar c = true) (hStarts : startsRun rest = true) :
    ∃ run more, pieces rest = run :: more ∧ pieces (c :: rest) = (c :: run) :: more := by
  have hSome : pieces rest ≠ [] := by
    intro hNone
    have hFlat := flatten_pieces rest
    cases rest with
    | nil => exact Bool.false_ne_true hStarts
    | cons d rest => simp [hNone, isBlank_of_isRunChar hStarts] at hFlat
  obtain ⟨run, more, hPieces⟩ := List.exists_cons_of_ne_nil hSome
  refine ⟨run, more, hPieces, ?_⟩
  rw [pieces, if_neg (by simp [isBlank_of_isRunChar hChar]),
    if_neg (by simp [isBracket_of_isRunChar hChar]), hStarts, hPieces]

/-- A run character in front of anything else is a run. -/
theorem pieces_cons_single (hChar : isRunChar c = true) (hStarts : startsRun rest = false) :
    pieces (c :: rest) = [c] :: pieces rest := by
  have hRun : IsRun [c] := ⟨List.cons_ne_nil _ _, by simpa using hChar⟩
  exact pieces_run_append hRun hStarts

theorem isKept_cons (hBlank : Text.isBlank c = false) : isKept (c :: rest) = true := by
  simp [isKept, hBlank]

/-- The pieces are what is kept of the parts between and at the cuts. -/
theorem pieces_eq_filter_cut (chars : List Char) : pieces chars = (cut chars).filter isKept := by
  induction chars with
  | nil => rfl
  | cons c rest ih =>
      rcases char_cases c with hBlank | hBracket | hChar
      · rw [pieces_cons_blank hBlank, ih, cut, if_pos (.inr hBlank)]
        simp [isKept, hBlank]
      · rw [pieces_cons_bracket hBracket, ih, cut, if_pos (.inl hBracket)]
        simp [isKept, isBlank_of_isBracket hBracket]
      · have hBlank := isBlank_of_isRunChar hChar
        obtain ⟨run, more, hCut, hEmpty, hRun⟩ := exists_cut rest
        rw [cut, if_neg (by simp [hBlank, isBracket_of_isRunChar hChar]), hCut,
          List.modifyHead_cons, List.filter_cons_of_pos (isKept_cons hBlank)]
        rw [hCut] at ih
        cases run with
        | nil =>
            rw [pieces_cons_single hChar (hEmpty.mp rfl), ih,
              List.filter_cons_of_neg (by simp [isKept])]
        | cons d run =>
            have hStarts : startsRun rest = true :=
              eq_true_of_ne_false (mt hEmpty.mpr (List.cons_ne_nil d run))
            have hFirst := isBlank_of_isRunChar (hRun d (List.mem_cons_self ..))
            obtain ⟨first, later, hPieces, hLonger⟩ := exists_pieces_cons hChar hStarts
            rw [hPieces, List.filter_cons_of_pos (isKept_cons hFirst)] at ih
            obtain ⟨rfl, rfl⟩ := List.cons.inj ih
            exact hLonger

theorem endsRun_append_of_isGap (hGap : IsGap gap) (hSome : gap ≠ []) :
    endsRun (before ++ gap) = false := by
  rw [endsRun, List.getLast?_append_of_ne_nil _ hSome, List.getLast?_eq_some_getLast hSome]
  exact isRunChar_of_isBlank (hGap _ (List.getLast_mem hSome))

theorem endsRun_of_isGap (hGap : IsGap gap) : endsRun gap = false := by
  by_cases hSome : gap = []
  · rw [hSome]
    rfl
  · have hEnds : endsRun ([] ++ gap) = false := endsRun_append_of_isGap hGap hSome
    rwa [List.nil_append] at hEnds

theorem endsRun_append (hSome : back ≠ []) : endsRun (front ++ back) = endsRun back := by
  rw [endsRun, List.getLast?_append_of_ne_nil _ hSome, endsRun]

/-- Where no run goes across, what is in front and what is behind are split apart. -/
theorem pieces_append (hApart : endsRun front = false ∨ startsRun back = false) :
    pieces (front ++ back) = pieces front ++ pieces back := by
  induction front with
  | nil => rfl
  | cons c front ih =>
      have hLater : endsRun front = false ∨ startsRun back = false := by
        refine hApart.imp_left fun hEnds => ?_
        cases front with
        | nil => rfl
        | cons d front =>
            rwa [← List.singleton_append, endsRun_append (List.cons_ne_nil _ _)] at hEnds
      rw [List.cons_append]
      rcases char_cases c with hBlank | hBracket | hChar
      · rw [pieces_cons_blank hBlank, pieces_cons_blank hBlank, ih hLater]
      · rw [pieces_cons_bracket hBracket, pieces_cons_bracket hBracket, ih hLater,
          List.cons_append]
      · have hSame : startsRun (front ++ back) = startsRun front := by
          cases front with
          | nil =>
              have hEnds : endsRun [c] ≠ false := by simp [endsRun, hChar]
              exact hApart.resolve_left hEnds
          | cons d front => rfl
        cases hStarts : startsRun front with
        | true =>
            obtain ⟨run, more, hPieces, hLonger⟩ := exists_pieces_cons hChar hStarts
            obtain ⟨run', more', hPieces', hLonger'⟩ :=
              exists_pieces_cons hChar (hSame.trans hStarts)
            rw [ih hLater, hPieces, List.cons_append] at hPieces'
            obtain ⟨rfl, rfl⟩ := List.cons.inj hPieces'
            rw [hLonger, hLonger', List.cons_append]
        | false =>
            rw [pieces_cons_single hChar hStarts, pieces_cons_single hChar (hSame.trans hStarts),
              ih hLater, List.cons_append]

/-- What is whole between its neighbours is a piece, and they are split on their own. -/
theorem pieces_of_isWhole (hWhole : IsWhole before piece behind) :
    pieces (before ++ (piece ++ behind)) = pieces before ++ piece :: pieces behind := by
  rcases hWhole with ⟨c, hBracket, rfl⟩ | ⟨hRun, hBefore, hBehind⟩
  · have hStarts : startsRun ([c] ++ behind) = false := isRunChar_of_isBracket hBracket
    rw [pieces_append (.inr hStarts), List.singleton_append, pieces_cons_bracket hBracket]
  · rw [pieces_append (.inl hBefore), pieces_run_append hRun hBehind]

/-- In front of a run a laid out text does not end with one. -/
theorem endsRun_spell {lead : List Char} {part : List Char × List Char}
    {parts more : List (List Char × List Char)} (hLead : IsGap lead)
    (hSpaced : AreSpaced (parts ++ part :: more)) (hRun : IsRun part.1) :
    endsRun (lead ++ spell parts) = false := by
  obtain rfl | ⟨parts, last, rfl⟩ := parts.eq_nil_or_concat'
  · rw [spell, List.flatMap_nil, List.append_nil, endsRun_of_isGap hLead]
  · obtain ⟨piece, gap⟩ := last
    have hApart : IsRun piece → gap ≠ [] := fun hLast =>
      (List.isChain_append.mp hSpaced.apart).2.2 (piece, gap) (by simp) part (by simp) hLast hRun
    have hMem : (piece, gap) ∈ parts ++ [(piece, gap)] ++ part :: more := by simp
    have hText : lead ++ spell (parts ++ [(piece, gap)]) = lead ++ spell parts ++ piece ++ gap := by
      simp [spell]
    rw [hText]
    by_cases hSome : gap = []
    · rcases hSpaced.isPiece _ hMem with ⟨c, hBracket, hPiece⟩ | hLast
      · obtain rfl : piece = [c] := hPiece
        rw [hSome, List.append_nil, endsRun_append (List.cons_ne_nil _ _)]
        exact isRunChar_of_isBracket hBracket
      · exact absurd hSome (hApart hLast)
    · exact endsRun_append_of_isGap (hSpaced.isGap _ hMem) hSome

/-- The pieces of a text are whole in it, each where those in front of it and those behind it are
the pieces of what is left. -/
theorem pieces_eq_append_cons_iff {chars : List Char} {front back : List (List Char)} :
    pieces chars = front ++ piece :: back ↔ ∃ before behind,
      chars = before ++ (piece ++ behind) ∧ IsWhole before piece behind ∧
        pieces before = front ∧ pieces behind = back := by
  constructor
  · intro hPieces
    obtain ⟨⟨lead, parts, hLead, hSpaced⟩, rfl⟩ := Layout.exists_chars chars
    rw [Layout.pieces_chars, List.map_eq_append_iff] at hPieces
    obtain ⟨parts, rest, rfl, rfl, hRest⟩ := hPieces
    obtain ⟨part, more, rfl, rfl, rfl⟩ := List.map_eq_cons_iff.mp hRest
    obtain ⟨hFront, hBack⟩ := areSpaced_append hSpaced
    obtain ⟨hPiece, hGap, -, hMore⟩ := areSpaced_cons.mp hBack
    refine ⟨lead ++ spell parts, part.2 ++ spell more, ?_, ?_, ?_, ?_⟩
    · simp [Layout.chars, spell]
    · exact hPiece.imp_right fun hRun =>
        ⟨hRun, endsRun_spell hLead hSpaced hRun, startsRun_behind hBack hRun⟩
    · rw [pieces_gap_append hLead, pieces_spell hFront]
    · rw [pieces_gap_append hGap, pieces_spell hMore]
  · rintro ⟨before, behind, rfl, hWhole, rfl, rfl⟩
    exact pieces_of_isWhole hWhole

theorem isPiece_of_mem_pieces {chars : List Char} (hPiece : piece ∈ pieces chars) :
    IsPiece piece := by
  obtain ⟨front, back, hPieces⟩ := List.append_of_mem hPiece
  obtain ⟨before, behind, -, hWhole, -⟩ := pieces_eq_append_cons_iff.mp hPieces
  exact hWhole.imp_right And.left

/-- The pieces of a text in any other layout are still its pieces. -/
theorem pieces_respaced {chars lead : List Char} {parts : List (List Char × List Char)}
    (hPieces : parts.map Prod.fst = pieces chars) (hLead : IsGap lead)
    (hGaps : ∀ part ∈ parts, IsGap part.2)
    (hApart : parts.IsChain fun part next => IsRun part.1 → IsRun next.1 → part.2 ≠ []) :
    pieces (lead ++ spell parts) = pieces chars := by
  have hPiece (part) (hMem : part ∈ parts) : IsPiece part.1 :=
    isPiece_of_mem_pieces (hPieces ▸ List.mem_map_of_mem hMem)
  rw [pieces_gap_append hLead, pieces_spell ⟨hPiece, hGaps, hApart⟩, hPieces]

theorem map_toList_split (text : String) : (split text).map String.toList = pieces text.toList := by
  simp [split, Function.comp_def]

theorem split_eq_iff {text : String} {strings : List String} :
    split text = strings ↔ pieces text.toList = strings.map String.toList := by
  constructor
  · rintro rfl
    exact (map_toList_split text).symm
  · intro hPieces
    rw [split, hPieces, List.map_map]
    simp [Function.comp_def]

/-- A text is split into its single brackets and its whole runs, in order and with nothing but the
blanks lost, as cutting it at every bracket and every blank says. All texts are laid out, and a
text with the same pieces in any other layout has the same pieces and is read in the same way. -/
theorem split_layout (text : String) :
    split text = ((cut text.toList).filter isKept).map String.ofList ∧
    (∀ front piece back, split text = front ++ piece :: back ↔ ∃ before behind,
      text = before ++ (piece ++ behind) ∧
        IsWhole before.toList piece.toList behind.toList ∧
        split before = front ∧ split behind = back) ∧
    (split text).flatMap String.toList = text.toList.filter (fun c => !Text.isBlank c) ∧
    (∃ layout : Layout, layout.text = text ∧ layout.pieces = split text) ∧
    ∀ lead parts, parts.map (fun part => String.ofList part.1) = split text → IsGap lead →
      (∀ part ∈ parts, IsGap part.2) →
      (parts.IsChain fun part next => IsRun part.1 → IsRun next.1 → part.2 ≠ []) →
      split (String.ofList (lead ++ spell parts)) = split text ∧
        ∀ s, Reading.readText s (String.ofList (lead ++ spell parts)) =
          Reading.readText s text := by
  refine ⟨?cut, ?whole, ?blanks, ?layout, ?respaced⟩
  case cut => rw [split, pieces_eq_filter_cut]
  case whole =>
    intro front piece back
    rw [split_eq_iff, List.map_append, List.map_cons, pieces_eq_append_cons_iff]
    constructor
    · rintro ⟨before, behind, hText, hWhole, hFront, hBack⟩
      refine ⟨String.ofList before, String.ofList behind, ?_, ?_, ?_, ?_⟩
      · rw [← String.toList_inj, hText]
        simp
      · rwa [String.toList_ofList, String.toList_ofList]
      · rwa [split_eq_iff, String.toList_ofList]
      · rwa [split_eq_iff, String.toList_ofList]
    · rintro ⟨before, behind, rfl, hWhole, rfl, rfl⟩
      exact ⟨before.toList, behind.toList, by simp, hWhole, (map_toList_split before).symm,
        (map_toList_split behind).symm⟩
  case blanks => rw [← flatten_pieces, ← map_toList_split, List.flatMap_def]
  case layout =>
    obtain ⟨layout, hLayout⟩ := Layout.exists_chars text.toList
    have hText : layout.text = text := by rw [Layout.text, hLayout, String.ofList_toList]
    exact ⟨layout, hText, hText ▸ layout.split_text.symm⟩
  case respaced =>
    intro lead parts hPieces hLead hGaps hApart
    have hChars : parts.map Prod.fst = pieces text.toList := by
      rw [← map_toList_split, ← hPieces, List.map_map]
      simp [Function.comp_def]
    have hSplit : split (String.ofList (lead ++ spell parts)) = split text := by
      rw [split, String.toList_ofList, pieces_respaced hChars hLead hGaps hApart, split]
    refine ⟨hSplit, fun s => ?_⟩
    rw [Reading.readText, Reading.readText, scan, scan, hSplit]

theorem split_layout_respaced :
    split " (+\tx 1)\n" = split "(+ x 1)" ∧
      ∀ s, Reading.readText s " (+\tx 1)\n" = Reading.readText s "(+ x 1)" :=
  (split_layout "(+ x 1)").2.2.2.2 [' ']
    [(['('], []), (['+'], ['\t']), (['x'], [' ']), (['1'], []), ([')'], ['\n'])]
    (by decide) (by simp [IsGap]; decide) (by simp [IsGap]; decide) (by simp [IsRun]; decide)

end Formulas.Token
