import Jingle.Proofs.Text.Line

/-!
# Columns

A byte offset of a text lies on one of its lines, and the text is cut there into what comes before
the line, the line and what comes after it. An offset may also lie inside of a character. The end of
a text lies on its last line, behind the line feed if there is one.

* `IsLine line` says that a text is a line, with or without its line feed.
* `lines_append_line` and `cut_of_lines_eq` say where a text is cut into lines.
* `Numbered text number line` says which line of a text has a number.
* `Column.Splits` says how a text is cut at a column.
* `column?_splits` says that the column of an offset is the one that cuts the text there, and which
  offsets have none.
-/

namespace Jingle.Text

theorem byteLength_toList (text : String) : byteLength text.toList = text.utf8ByteSize := by
  obtain ⟨chars, rfl⟩ : ∃ chars, text = String.ofList chars :=
    ⟨text.toList, String.ofList_toList.symm⟩
  rw [String.toList_ofList]
  induction chars with
  | nil => rfl
  | cons c chars ih =>
    have hFirst : (String.ofList [c]).utf8ByteSize = c.utf8Size := String.utf8ByteSize_singleton
    rw [byteLength_cons, ih, ← List.singleton_append, String.ofList_append,
      String.utf8ByteSize_append, hFirst]

/-! ## Lines -/

theorem closed_nil : Closed [] := by
  intro c hc
  cases hc

/-- A text that is not empty, with no line feed but at its end. -/
structure IsLine (line : List Char) : Prop where
  ne_nil : line ≠ []
  oneLine : OneLine line.dropLast

theorem isLine_concat {front : List Char} {c : Char} : IsLine (front ++ [c]) ↔ OneLine front := by
  constructor
  · intro h
    have hFront := h.oneLine
    rwa [List.dropLast_concat] at hFront
  · intro h
    exact ⟨by simp, by rwa [List.dropLast_concat]⟩

theorem IsLine.exists_concat {line : List Char} (h : IsLine line) :
    ∃ front c, line = front ++ [c] ∧ OneLine front :=
  ⟨line.dropLast, line.getLast h.ne_nil, (List.dropLast_concat_getLast h.ne_nil).symm, h.oneLine⟩

theorem IsLine.cons {c : Char} {line : List Char} (h : IsLine line) (hNe : c ≠ '\n') :
    IsLine (c :: line) := by
  obtain ⟨front, d, rfl, hFront⟩ := h.exists_concat
  exact isLine_concat.mpr (oneLine_cons.mpr ⟨hNe, hFront⟩)

/-- A line with its line feed has no other. -/
theorem IsLine.count_eq_one {line : List Char} (h : IsLine line) (hFeed : '\n' ∈ line.getLast?) :
    line.count '\n' = 1 := by
  obtain ⟨front, c, rfl, hFront⟩ := h.exists_concat
  rw [List.getLast?_concat, Option.mem_some] at hFeed
  rw [List.count_append, List.count_eq_zero.mpr hFront, hFeed]
  simp

theorem isLine_lineEnd {text : List Char} (h : text ≠ []) : IsLine (lineEnd text) := by
  induction text with
  | nil => exact absurd rfl h
  | cons c text ih =>
    rw [lineEnd]
    split
    · exact isLine_concat.mpr (List.not_mem_nil)
    · next hNe =>
      cases text with
      | nil => exact isLine_concat.mpr (List.not_mem_nil)
      | cons d text => exact (ih (List.cons_ne_nil _ _)).cons hNe

/-- Something is left of a text behind its first line only if this one has its line feed. -/
theorem feed_mem_getLast?_lineEnd {text : List Char} (h : laterLines text ≠ []) :
    '\n' ∈ (lineEnd text).getLast? := by
  induction text with
  | nil => exact absurd rfl h
  | cons c text ih =>
    rw [laterLines] at h
    rw [lineEnd]
    split at h
    · next hFeed =>
      rw [if_pos hFeed, hFeed]
      rfl
    · next hNe =>
      rw [if_neg hNe, List.getLast?_cons, Option.mem_def.mp (ih h)]
      rfl

/-- A line between two places where a text may be cut is one of its lines. -/
theorem lines_append_line {before line after : List Char} (hBefore : Closed before)
    (hLine : IsLine line) (hAfter : after = [] ∨ '\n' ∈ line.getLast?) :
    lines (before ++ line ++ after) = lines before ++ line :: lines after := by
  have hClosed := (linesAfter_closed hBefore [] (absurd rfl) (line ++ after)).1
  rw [List.append_assoc, lines, hClosed]
  obtain ⟨front, c, rfl, hFront⟩ := hLine.exists_concat
  have hRest : lines (front ++ [c] ++ after) = linesAfter front.reverse (c :: after) := by
    rw [List.append_assoc, lines, linesAfter_append hFront, List.append_nil]
    rfl
  rw [hRest, linesAfter]
  split
  · simp [lines]
  · next hNe =>
    -- A line without its line feed is the last one.
    obtain rfl : after = [] := by
      rw [List.getLast?_concat, Option.mem_some] at hAfter
      exact hAfter.resolve_right hNe
    simp [linesAfter, lines]

theorem eq_lineEnd_of_lines_eq {text line : List Char} {rest : List (List Char)}
    (h : lines text = line :: rest) :
    text ≠ [] ∧ line = lineEnd text ∧ rest = lines (laterLines text) := by
  have hText : text ≠ [] := by
    rintro rfl
    cases h
  have hFirst : lines text = lineEnd text :: lines (laterLines text) := linesAfter_eq_cons hText []
  exact ⟨hText, List.cons.inj (h.symm.trans hFirst)⟩

/-- The lines of a text are cut behind its line feeds. Each but the last has one. -/
theorem cut_of_lines_eq {text line : List Char} {front back : List (List Char)}
    (h : lines text = front ++ line :: back) :
    Closed front.flatten ∧ front.flatten.count '\n' = front.length ∧
      IsLine line ∧ (back = [] ∨ '\n' ∈ line.getLast?) := by
  induction front generalizing text with
  | nil =>
    obtain ⟨hText, rfl, rfl⟩ := eq_lineEnd_of_lines_eq h
    refine ⟨closed_nil, rfl, isLine_lineEnd hText, ?_⟩
    by_cases hLater : laterLines text = []
    · exact .inl (by rw [hLater]; rfl)
    · exact .inr (feed_mem_getLast?_lineEnd hLater)
  | cons first front ih =>
    obtain ⟨hText, rfl, hRest⟩ := eq_lineEnd_of_lines_eq h
    obtain ⟨hClosed, hCount, hCut⟩ := ih hRest.symm
    have hLater : laterLines text ≠ [] := by
      intro hNil
      rw [hNil] at hRest
      cases (List.append_eq_nil_iff.mp hRest).2
    have hFeed := feed_mem_getLast?_lineEnd hLater
    refine ⟨?_, ?_, hCut⟩
    · intro c hc
      rw [List.flatten_cons, List.getLast?_append, Option.mem_def, Option.or_eq_some_iff] at hc
      rcases hc with hc | ⟨-, hc⟩
      · exact hClosed c hc
      · exact Option.some.inj (hc.symm.trans hFeed)
    · rw [List.flatten_cons, List.count_append, hCount, (isLine_lineEnd hText).count_eq_one hFeed,
        List.length_cons, Nat.add_comm]

/-! ## Numbers of lines -/

/-- The line of a text with the given number: it comes after the line before it and reaches up to
its line feed or up to the end of the text. -/
structure Numbered (text : List Char) (number : Nat) (line : List Char) : Prop where
  isLine : IsLine line
  cut : ∃ before after, text = before ++ line ++ after ∧ Closed before ∧
    (after = [] ∨ '\n' ∈ line.getLast?) ∧ number = 1 + before.count '\n'

theorem text_eq_of_lines_eq {text line : List Char} {front back : List (List Char)}
    (h : lines text = front ++ line :: back) : text = front.flatten ++ line ++ back.flatten := by
  have hFlatten : (lines text).flatten = text := flatten_linesAfter [] text
  rw [← hFlatten, h, List.flatten_append, List.flatten_cons, List.append_assoc]

theorem numbered_of_lines_eq {text line : List Char} {front back : List (List Char)}
    (h : lines text = front ++ line :: back) : Numbered text (1 + front.length) line := by
  obtain ⟨hClosed, hCount, hLine, hBack⟩ := cut_of_lines_eq h
  refine ⟨hLine, front.flatten, back.flatten, text_eq_of_lines_eq h, hClosed, ?_, by rw [hCount]⟩
  exact hBack.imp_left (congrArg List.flatten)

/-- A line that is found by its number is shown without its line break. -/
theorem exists_numbered_of_line? {text shown : List Char} {number : Nat}
    (h : line? text number = some shown) :
    ∃ line, Numbered text number line ∧ Unbroken line shown := by
  cases number with
  | zero => cases h
  | succ index =>
    obtain ⟨line, hLine, rfl⟩ := Option.map_eq_some_iff.mp h
    obtain ⟨hIndex, rfl⟩ := List.getElem?_eq_some_iff.mp hLine
    have hLines : lines text = (lines text).take index ++
        (lines text)[index] :: (lines text).drop (index + 1) := by
      rw [← List.drop_eq_getElem_cons hIndex, List.take_append_drop]
    have hLength : ((lines text).take index).length = index :=
      List.length_take_of_le (Nat.le_of_lt hIndex)
    have hNumbered := numbered_of_lines_eq hLines
    rw [hLength, Nat.add_comm] at hNumbered
    exact ⟨_, hNumbered, unbroken_withoutBreak _⟩

/-! ## Columns -/

/-- A column is found on the line on which the bytes before it end. -/
theorem columnIn?_eq_some_iff {number offset : Nat} {lines : List (List Char)} {place : Column} :
    columnIn? number offset lines = some place ↔
      ∃ front back, lines = front ++ place.line :: back ∧
        place.number = number + front.length ∧ byteLength front.flatten + place.column = offset ∧
        (place.column < byteLength place.line ∨
          back = [] ∧ place.column = byteLength place.line) := by
  constructor
  · intro h
    induction lines generalizing number offset with
    | nil => cases h
    | cons line lines ih =>
      by_cases hLess : offset < byteLength line
      · rw [columnIn?_of_lt hLess] at h
        obtain rfl := Option.some.inj h
        exact ⟨[], lines, rfl, rfl, Nat.zero_add _, .inl hLess⟩
      · cases lines with
        | nil =>
          rw [columnIn?] at h
          split at h
          · next hMost =>
            obtain rfl := Option.some.inj h
            have hEnd : offset = byteLength line :=
              Nat.le_antisymm hMost (Nat.le_of_not_lt hLess)
            exact ⟨[], [], rfl, rfl, Nat.zero_add _, .inr ⟨rfl, hEnd⟩⟩
          · cases h
        | cons next lines =>
          rw [columnIn?, if_neg hLess] at h
          · obtain ⟨front, back, hLines, hNumber, hOffset, hColumn⟩ := ih h
            refine ⟨line :: front, back, congrArg _ hLines, ?_, ?_, hColumn⟩
            · rw [hNumber, List.length_cons]
              omega
            · rw [List.flatten_cons, byteLength_append]
              omega
          · rintro ⟨⟩
  · rintro ⟨front, back, rfl, hNumber, rfl, hColumn⟩
    rw [columnIn?_append _ _ _ (List.cons_ne_nil _ _), ← hNumber]
    rcases hColumn with hLess | ⟨rfl, hEnd⟩
    · exact columnIn?_of_lt hLess back
    · exact if_pos (Nat.le_of_eq hEnd)

/-- The text is cut at an offset into what comes before the line of the place, that line and what
comes after it. -/
structure Column.Splits (place : Column) (text : List Char) (offset : Nat)
    (before after : List Char) : Prop where
  text_eq : text = before ++ place.line ++ after
  before_closed : Closed before
  isLine : IsLine place.line
  after_eq : after = [] ∨ '\n' ∈ place.line.getLast?
  offset_eq : byteLength before + place.column = offset
  number_eq : place.number = 1 + before.count '\n'
  inside : offset ≠ byteLength text → place.column < byteLength place.line
  atEnd : offset = byteLength text → after = [] ∧ place.column = byteLength place.line

theorem Column.Splits.numbered {place : Column} {text : List Char} {offset : Nat}
    {before after : List Char} (h : place.Splits text offset before after) :
    Numbered text place.number place.line :=
  ⟨h.isLine, before, after, h.text_eq, h.before_closed, h.after_eq, h.number_eq⟩

theorem column?_eq_some_iff {text : List Char} {offset : Nat} {place : Column} :
    column? text offset = some place ↔ ∃ before after, place.Splits text offset before after := by
  rw [column?, columnIn?_eq_some_iff]
  constructor
  · rintro ⟨front, back, hLines, hNumber, hOffset, hColumn⟩
    have hText := text_eq_of_lines_eq hLines
    have hBytes := congrArg byteLength hText
    rw [byteLength_append, byteLength_append] at hBytes
    obtain ⟨hClosed, hCount, hLine, hBack⟩ := cut_of_lines_eq hLines
    refine ⟨front.flatten, back.flatten, hText, hClosed, hLine,
      hBack.imp_left (congrArg List.flatten), hOffset, hCount ▸ hNumber, ?_, ?_⟩
    · intro hNotEnd
      rcases hColumn with hLess | ⟨rfl, hEnd⟩
      · exact hLess
      · rw [List.flatten_nil, byteLength_nil] at hBytes
        omega
    · intro hAtEnd
      rcases hColumn with hLess | ⟨rfl, hEnd⟩
      · omega
      · exact ⟨rfl, hEnd⟩
  · rintro ⟨before, after, h⟩
    have hLength : (lines before).length = before.count '\n' :=
      (linesAfter_closed h.before_closed [] (absurd rfl) []).2
    have hFlatten : (lines before).flatten = before := flatten_linesAfter [] before
    refine ⟨lines before, lines after, ?_, ?_, ?_, ?_⟩
    · rw [h.text_eq, lines_append_line h.before_closed h.isLine h.after_eq]
    · rw [hLength, h.number_eq]
    · rw [hFlatten, h.offset_eq]
    · by_cases hEnd : offset = byteLength text
      · obtain ⟨rfl, hColumn⟩ := h.atEnd hEnd
        exact .inr ⟨rfl, hColumn⟩
      · exact .inl (h.inside hEnd)

/-- Only an empty text has no column at its end. -/
theorem column?_eq_none_iff {text : List Char} {offset : Nat} :
    column? text offset = none ↔ text = [] ∨ byteLength text < offset := by
  constructor
  · intro hNone
    by_cases hText : text = []
    · exact .inl hText
    · refine .inr (Nat.lt_of_not_le fun hOffset => ?_)
      obtain ⟨place, hPlace⟩ := exists_column? hText hOffset
      cases hNone.symm.trans hPlace
  · intro h
    rw [Option.eq_none_iff_forall_ne_some]
    intro place hPlace
    obtain ⟨before, after, hSplits⟩ := column?_eq_some_iff.mp hPlace
    rcases h with rfl | hOffset
    · have hNil := List.append_eq_nil_iff.mp (List.append_eq_nil_iff.mp hSplits.text_eq.symm).1
      exact hSplits.isLine.ne_nil hNil.2
    · have hColumn := hSplits.inside (Nat.ne_of_gt hOffset)
      have hBytes := congrArg byteLength hSplits.text_eq
      rw [byteLength_append, byteLength_append] at hBytes
      have hEq := hSplits.offset_eq
      omega

/-- An offset has a column exactly if the text is not empty and does not end before it. The column
is the only one that cuts the text at the offset. -/
theorem column?_splits (content : String) (position : UInt32) :
    (column? content.toList position.toNat = none ↔
        content = "" ∨ content.utf8ByteSize < position.toNat) ∧
      ∀ place, column? content.toList position.toNat = some place ↔
        ∃ before after, place.Splits content.toList position.toNat before after := by
  refine ⟨?_, fun place => column?_eq_some_iff⟩
  rw [column?_eq_none_iff, byteLength_toList, String.toList_eq_nil_iff]

-- An offset inside of a character, and one behind the last line feed.
example : column? ['a', '\n', 'é', '\n'] 3 = some ⟨2, ['é', '\n'], 1⟩ := by decide
example : column? ['a', '\n'] 2 = some ⟨1, ['a', '\n'], 2⟩ := by decide

end Jingle.Text
