import Jingle.Proofs.Shown
import Jingle.Proofs.Token.Origin
import Mathlib.Data.List.TakeWhile

/-!
# The caret of a report

The arrow below the line of a fault has a dash for each byte from the indentation of the line to the
place of the fault. The line above it is shown in characters and without any of the blanks at its
beginning. So the caret stands under the character of the fault, or to the right of it.

* `Report.drift front` counts how far to the right it stands after the characters `front` of a line,
  and `Report.drift_eq_zero_iff` says when it stands under the character.
* `exists_visible_of_checkSource` says that the character of a fault is not blank, so that it is
  shown.
* `checkSource_caret` says where the character and the caret of a report are, as long as the caret
  can be drawn.
-/

namespace Jingle

open Text

/-! ## Texts around a character -/

namespace Text

section Around

variable {p : Char → Bool} {c : Char} (h : p c = false) (front rest : List Char)

include h

theorem takeWhile_append_cons : (front ++ c :: rest).takeWhile p = front.takeWhile p := by
  induction front with
  | nil => simp [h]
  | cons d front ih => cases hd : p d <;> simp [hd, ih]

theorem dropWhile_append_cons :
    (front ++ c :: rest).dropWhile p = front.dropWhile p ++ c :: rest := by
  induction front with
  | nil => simp [h]
  | cons d front ih => cases hd : p d <;> simp [hd, ih]

end Around

/-- A text without the blanks at its end. -/
def trimEnd (text : List Char) : List Char :=
  (text.reverse.dropWhile isBlank).reverse

theorem trimEnd_isPrefix (text : List Char) : trimEnd text <+: text := by
  rw [← List.reverse_suffix, trimEnd, List.reverse_reverse]
  exact List.dropWhile_suffix _

/-- A character that is not blank keeps what is between it and the blanks at both ends. -/
theorem trim_append_cons {c : Char} (h : isBlank c = false) (front rest : List Char) :
    trim (front ++ c :: rest) = front.dropWhile isBlank ++ c :: trimEnd rest := by
  rw [trim, dropWhile_append_cons h, List.reverse_append, List.reverse_cons, List.append_assoc,
    List.singleton_append, dropWhile_append_cons h, trimEnd]
  simp

theorem ne_feed {c : Char} (h : isBlank c = false) : c ≠ '\n' := by
  rintro rfl
  cases h

theorem lineEnd_isPrefix (text : List Char) : lineEnd text <+: text := by
  induction text with
  | nil => exact List.prefix_rfl
  | cons c text ih =>
    rw [lineEnd]
    split
    · exact List.prefix_append [c] text
    · exact List.cons_prefix_cons.mpr ⟨rfl, ih⟩

/-- Only the last character of a line may be a line feed. -/
theorem lineEnd_cases (text : List Char) :
    OneLine (lineEnd text) ∨ ∃ line, OneLine line ∧ lineEnd text = line ++ ['\n'] := by
  induction text with
  | nil => exact .inl List.not_mem_nil
  | cons c text ih =>
    by_cases hFeed : c = '\n'
    · exact .inr ⟨[], List.not_mem_nil, by rw [lineEnd, if_pos hFeed, hFeed, List.nil_append]⟩
    · rw [lineEnd, if_neg hFeed]
      rcases ih with hLine | ⟨line, hLine, hEnd⟩
      · exact .inl (oneLine_cons.mpr ⟨hFeed, hLine⟩)
      · exact .inr ⟨c :: line, oneLine_cons.mpr ⟨hFeed, hLine⟩, by rw [hEnd, List.cons_append]⟩

/-- The line feed of a line is one of the blanks at its end. -/
theorem oneLine_trimEnd_lineEnd (text : List Char) : OneLine (trimEnd (lineEnd text)) := by
  rcases lineEnd_cases text with hLine | ⟨line, hLine, hEnd⟩
  · exact hLine.of_subset (trimEnd_isPrefix _).subset
  · have hFeed : trimEnd (line ++ ['\n']) = trimEnd line := by
      rw [trimEnd, List.reverse_append]
      rfl
    rw [hEnd, hFeed]
    exact hLine.of_subset (trimEnd_isPrefix _).subset

end Text

/-! ## Dashes -/

namespace Report

theorem isBlank_of_isIndent {c : Char} (h : isIndent c = true) : isBlank c = true := by
  rcases (Bool.or_eq_true _ _).mp h with hSpace | hTab
  · rw [of_decide_eq_true hSpace]
    rfl
  · rw [of_decide_eq_true hTab]
    rfl

/-- How many columns a caret stands to the right of the character after the characters `front` of a
line: one for each byte of a character but its first, and one for each blank at the beginning of the
line that comes after the indentation. -/
def drift (front : List Char) : Nat :=
  byteLength front - front.length + ((front.takeWhile isBlank).dropWhile isIndent).length

theorem byteLength_le_length_iff {text : List Char} :
    byteLength text ≤ text.length ↔ ∀ c ∈ text, c.toNat < 0x80 := by
  induction text with
  | nil => simp
  | cons c text ih =>
    have hMore := length_le_byteLength text
    have hPos := c.utf8Size_pos
    rw [List.forall_mem_cons, ← ih, ← utf8Size_eq_one_iff, byteLength_cons, List.length_cons]
    omega

/-- The caret stands under the character if the characters before it have one byte each and only
spaces and tabs are cut from the line. -/
theorem drift_eq_zero_iff {front : List Char} :
    drift front = 0 ↔ (∀ c ∈ front, c.toNat < 0x80) ∧
      ∀ c ∈ front.takeWhile isBlank, isIndent c = true := by
  rw [drift, Nat.add_eq_zero_iff, Nat.sub_eq_zero_iff_le, byteLength_le_length_iff,
    List.length_eq_zero_iff, List.dropWhile_eq_nil_iff]

/-- The dashes before a caret reach over what is shown of the line before the character, and over
the drift. -/
theorem dashes_eq (front : List Char) :
    dashes front (byteLength front) = (front.dropWhile isBlank).length + drift front := by
  have hBytes := length_le_byteLength front
  have hFront : front.length =
      (front.takeWhile isBlank).length + (front.dropWhile isBlank).length := by
    rw [← List.length_append, List.takeWhile_append_dropWhile]
  have hBlanks : (front.takeWhile isBlank).length = (front.takeWhile isIndent).length +
      ((front.takeWhile isBlank).dropWhile isIndent).length := by
    have hIndent : (front.takeWhile isBlank).takeWhile isIndent = front.takeWhile isIndent := by
      rw [List.takeWhile_takeWhile]
      congr
      funext c
      exact Bool.eq_iff_iff.mpr (by simpa using isBlank_of_isIndent)
    rw [← hIndent, ← List.length_append, List.takeWhile_append_dropWhile]
  rw [dashes, drift]
  omega

end Report

/-! ## Places of faults -/

/-- A source that is refused before its end is refused at a character that is not blank. -/
theorem exists_visible_of_checkSource {source : String} {fault : Fault}
    (hSize : byteLength source.toList < UInt32.size) (h : checkSource source = .error fault)
    (hInside : fault.offset.toNat < byteLength source.toList) :
    ∃ before c after, source.toList = before ++ c :: after ∧
      byteLength before = fault.offset.toNat ∧ isBlank c = false := by
  rcases checkSource_eq_error_cases h with hStop | ⟨tokens, hTokens, token, hMem, hToken⟩
  · obtain ⟨before, c, after, hSource, hOffset, hStops⟩ :=
      Token.exists_stopsAt_of_tokenize hSize hStop
    refine ⟨before, c, after, hSource, hOffset, ?_⟩
    rw [← Bool.not_eq_true]
    intro hBlank
    cases (Token.Pattern.first?_blank hBlank).symm.trans hStops.first?_eq_none
  · have hKind : token.kind ≠ .eof := by
      intro hEnd
      rw [hToken, Token.eq_endAt_of_tokenize hTokens hMem hEnd, Token.endAt,
        Mark.toNat_offset_start hSize] at hInside
      exact Nat.lt_irrefl _ hInside
    obtain ⟨piece, hCut⟩ := Token.exists_cutFrom_of_tokenize hTokens hMem hKind
    obtain ⟨before, c, after, hSource, hStart, hBlank⟩ := hCut.exists_visible
    have hBytes : byteLength before < UInt32.size := by
      rw [hSource, byteLength_append] at hSize
      omega
    refine ⟨before, c, after, hSource, ?_, hBlank⟩
    rw [hToken, hStart, Mark.toNat_offset_start hBytes]

/-! ## Reports -/

/-- A report ends in two lines. The upper one has a character after `upper`, and the lower one is a
caret after `lower`. -/
structure Report.Points (report : String) (upper : List Char) (c : Char) (rest lower : List Char) :
    Prop where
  lines : ∃ title, report = title ++ "\n" ++ String.ofList (upper ++ c :: rest) ++ "\n" ++
    String.ofList (lower ++ ['^']) ++ "\n"
  upper_oneLine : OneLine (upper ++ c :: rest)
  lower_oneLine : OneLine lower
  caret : '^' ∉ lower

namespace Report

/-- What stands in a report before the character of a fault after the text `before`. -/
def upper (before : List Char) : List Char :=
  (toString (1 + before.count '\n') ++ " | ").toList ++ (lineStart before).dropWhile isBlank

/-- What stands in a report before the caret of a fault after the text `before`. -/
def lower (before : List Char) : List Char :=
  let front := lineStart before
  (bar (toString (1 + before.count '\n')) ++ " ").toList ++
    List.replicate (dashes front (byteLength front)) '-'

theorem length_lower (before : List Char) :
    (lower before).length = (upper before).length + drift (lineStart before) := by
  have hSpace : " ".length = 1 := rfl
  have hBar : " | ".length = 3 := rfl
  simp only [lower, upper, bar, String.toList_append, String.toList_ofList, List.length_append,
    List.length_replicate, String.length_toList, List.length_singleton, dashes_eq]
  omega

theorem oneLine_upper (before : List Char) : OneLine (upper before) := by
  have hFront : OneLine ((lineStart before).dropWhile isBlank) :=
    OneLine.of_subset (not_mem_lineStart before) (List.dropWhile_suffix _).subset
  rw [upper, oneLine_append]
  exact ⟨(oneLine_toString_nat _).append (by decide), hFront⟩

theorem oneLine_lower (before : List Char) : OneLine (lower before) := by
  have hBar (number : String) : OneLine (bar number).toList := by
    rw [bar, String.toList_ofList, oneLine_append]
    exact ⟨oneLine_replicate (by decide) _, by decide⟩
  rw [lower, oneLine_append]
  exact ⟨(hBar _).append (by decide), oneLine_replicate (by decide) _⟩

end Report

/-- The line of a fault at a character that is not blank, and the caret below it. -/
theorem Fault.report?_points {fault : Fault} {source : String} {before after : List Char} {c : Char}
    (hSource : source.toList = before ++ c :: after)
    (hOffset : byteLength before = fault.offset.toNat) (hBlank : isBlank c = false)
    (hWidth : Report.dashes (lineStart before) (byteLength (lineStart before)) + 1 ≤ Report.widest)
    (file : String) :
    ∃ report, fault.report? file source = some report ∧
      Report.Points report (Report.upper before) c (trimEnd (lineEnd after))
        (Report.lower before) := by
  have hIndent : Report.isIndent c = false := by
    rw [← Bool.not_eq_true] at hBlank ⊢
    exact fun h => hBlank (Report.isBlank_of_isIndent h)
  have hPlace := column?_around before (List.cons_ne_nil c after)
  rw [← hSource, hOffset, lineEnd, if_neg (ne_feed hBlank)] at hPlace
  have hReport := Fault.report?_of_column? hPlace file
  rw [Report.arrow?, Report.dashes, takeWhile_append_cons hIndent, ← Report.dashes, if_pos hWidth,
    Option.map_some] at hReport
  refine ⟨_, hReport, ⟨fault.title file ++ Report.bar (toString (1 + before.count '\n')), ?_⟩, ?_,
    Report.oneLine_lower before, by simp [Report.lower, Report.bar]⟩
  · rw [Report.excerpt, trim_append_cons hBlank, Report.upper, Report.lower]
    have hText (text : String) : toString text = text := rfl
    simp only [hText, String.ofList_append, String.ofList_toList, String.append_assoc,
      List.append_assoc]
  · rw [oneLine_append, oneLine_cons]
    exact ⟨Report.oneLine_upper before, ne_feed hBlank, oneLine_trimEnd_lineEnd after⟩

/-- The report of a fault before the end of a source shows the line of the fault from its first
character that is not blank to its last, with the character of the fault, and below it a caret, if
the dashes and the caret take less than 65536 columns. The caret stands as many columns to the right
of that character as the line drifts. So it stands under the character exactly if the characters
before it on its line have one byte each and the blanks at the beginning of the line are spaces and
tabs. -/
theorem checkSource_caret {source : String} {fault : Fault}
    (hSize : byteLength source.toList < UInt32.size) (hFault : checkSource source = .error fault)
    (hInside : fault.offset.toNat < byteLength source.toList) :
    ∃ before c after rest, source.toList = before ++ c :: after ∧
      byteLength before = fault.offset.toNat ∧ rest <+: after ∧
      (Report.dashes (lineStart before) (byteLength (lineStart before)) + 1 < 65536 →
        ∀ file, ∃ report, fault.report? file source = some report ∧
          Report.Points report (Report.upper before) c rest (Report.lower before)) ∧
      (Report.lower before).length =
        (Report.upper before).length + Report.drift (lineStart before) ∧
      ((Report.lower before).length = (Report.upper before).length ↔
        (∀ d ∈ lineStart before, d.toNat < 0x80) ∧
          ∀ d ∈ (lineStart before).takeWhile isBlank, Report.isIndent d = true) := by
  obtain ⟨before, c, after, hSource, hOffset, hBlank⟩ :=
    exists_visible_of_checkSource hSize hFault hInside
  have hLength := Report.length_lower before
  have hRest := (trimEnd_isPrefix _).trans (lineEnd_isPrefix after)
  refine ⟨before, c, after, _, hSource, hOffset, hRest, ?_, hLength, ?_⟩
  · intro hColumn
    exact Fault.report?_points hSource hOffset hBlank (Nat.le_of_lt_succ hColumn)
  · rw [hLength, Nat.add_eq_left, Report.drift_eq_zero_iff]

/-- A fault on the second line of a source, after a space, a vertical tab and a letter of two
bytes. -/
theorem checkSource_caret_tab :
    let source := "1;\n \x0b'é' #;"
    let fault : Fault := ⟨.unrecognised "#", 10⟩
    byteLength source.toList < UInt32.size ∧ checkSource source = .error fault ∧
      fault.offset.toNat < byteLength source.toList ∧
      ∃ before c after rest report, source.toList = before ++ c :: after ∧
        byteLength before = 10 ∧ rest <+: after ∧ fault.report? "main" source = some report ∧
        Report.Points report (Report.upper before) c rest (Report.lower before) ∧
        (Report.lower before).length =
          (Report.upper before).length + Report.drift (lineStart before) := by
  intro source fault
  have hSize : byteLength source.toList < UInt32.size := by decide
  have hStop : Token.tokenize source = .error fault := by decide
  have hFault : checkSource source = .error fault := by
    rw [checkSource, parseSource, hStop]
    rfl
  have hInside : fault.offset.toNat < byteLength source.toList := by decide
  obtain ⟨before, c, after, rest, hSource, hOffset, hRest, hDrawn, hLength, -⟩ :=
    checkSource_caret hSize hFault hInside
  have hColumn : Report.dashes (lineStart before) (byteLength (lineStart before)) + 1 < 65536 := by
    have hFront := byteLength_lineStart_le before
    have hTen : byteLength before = 10 := hOffset
    rw [Report.dashes]
    omega
  obtain ⟨report, hReport, hPoints⟩ := hDrawn hColumn "main"
  exact ⟨hSize, hFault, hInside, before, c, after, rest, report, hSource, hOffset, hRest, hReport,
    hPoints, hLength⟩

/-- A letter of two bytes moves the caret away from the character that it is meant to point to. -/
theorem Fault.report_caret_apart :
    let source := "echo 'é' #;"
    let fault : Fault := ⟨.unrecognised "#", 10⟩
    let upper := "1 | echo 'é' ".toList
    let lower := "  | ----------".toList
    checkSource source = .error fault ∧ source.toList = "echo 'é' ".toList ++ '#' :: [';'] ∧
      byteLength "echo 'é' ".toList = fault.offset.toNat ∧
      (∃ report, fault.report? "test.jingle" source = some report ∧
        Report.Points report upper '#' [';'] lower) ∧
      lower.length = upper.length + 1 := by
  intro source fault upper lower
  have hStop : Token.tokenize source = .error fault := by decide
  have hFault : checkSource source = .error fault := by
    rw [checkSource, parseSource, hStop]
    rfl
  have hSource : source.toList = "echo 'é' ".toList ++ '#' :: [';'] := by decide
  have hOffset : byteLength "echo 'é' ".toList = fault.offset.toNat := by decide
  have hUpper : Report.upper "echo 'é' ".toList = upper := by decide
  have hLower : Report.lower "echo 'é' ".toList = lower := by decide
  have hPoints := Fault.report?_points hSource hOffset rfl (by decide) "test.jingle"
  rw [hUpper, hLower] at hPoints
  exact ⟨hFault, hSource, hOffset, hPoints, by decide⟩

end Jingle
