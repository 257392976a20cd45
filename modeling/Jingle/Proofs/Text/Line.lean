import Jingle.Proofs.Text.Slice
import Jingle.Text.Line

/-!
# Lines around a place

A place in a text lies on the line that begins after the last line feed before the place and ends
with the first line feed after it. Counting line feeds before the place, cutting the text into lines
and walking over the lines by their bytes find the same line.

* `lines_around` cuts a text into the lines before a place, the line of the place and the lines
  after it.
* `column?_around` and `line?_around` give what is found by the offset of a place and by the number
  of its line.
* `Unbroken line shown` says what is left of a line without its line break.
* `OneLine text` says that a text has no line feeds.
-/

namespace Jingle.Text

/-- The characters of a text after its last line feed. -/
def lineStart (text : List Char) : List Char :=
  (text.reverse.takeWhile (· ≠ '\n')).reverse

/-- The characters of a text before the line that it ends in. -/
def closedLines (text : List Char) : List Char :=
  (text.reverse.dropWhile (· ≠ '\n')).reverse

/-- The characters of a text up to its first line feed, which is one of them. -/
def lineEnd : List Char → List Char
  | [] => []
  | c :: text => if c = '\n' then [c] else c :: lineEnd text

/-- The characters of a text after its first line feed. -/
def laterLines : List Char → List Char
  | [] => []
  | c :: text => if c = '\n' then text else laterLines text

/-- A text that does not end inside of a line. -/
def Closed (text : List Char) : Prop :=
  ∀ c ∈ text.getLast?, c = '\n'

theorem Closed.tail {c : Char} {text : List Char} (h : Closed (c :: text)) : Closed text := by
  intro d hd
  apply h d
  rw [List.getLast?_cons, Option.mem_def.mp hd]
  rfl

theorem Closed.tail_ne_nil {c : Char} {text : List Char} (h : Closed (c :: text))
    (hNe : c ≠ '\n') : text ≠ [] := by
  rintro rfl
  exact hNe (h c rfl)

theorem closedLines_append_lineStart (text : List Char) :
    closedLines text ++ lineStart text = text := by
  rw [closedLines, lineStart, ← List.reverse_append, List.takeWhile_append_dropWhile,
    List.reverse_reverse]

theorem byteLength_lineStart_le (text : List Char) :
    byteLength (lineStart text) ≤ byteLength text := by
  have hText := congrArg byteLength (closedLines_append_lineStart text)
  rw [byteLength_append] at hText
  omega

theorem lineEnd_ne_nil {text : List Char} (h : text ≠ []) : lineEnd text ≠ [] := by
  cases text with
  | nil => exact absurd rfl h
  | cons c text =>
    rw [lineEnd]
    split <;> simp

/-- The beginning of a text up to a line feed is on the line that the text begins with. -/
theorem takeWhile_isPrefix_lineEnd (text rest : List Char) :
    text.takeWhile (· ≠ '\n') <+: lineEnd (text ++ rest) := by
  induction text with
  | nil => simp
  | cons c text ih =>
    by_cases h : c = '\n'
    · simp [h]
    · simpa [lineEnd, h] using ih

theorem not_mem_lineStart (text : List Char) : '\n' ∉ lineStart text := by
  intro h
  rw [lineStart, List.mem_reverse] at h
  have hAll := List.all_takeWhile (p := (· ≠ '\n')) (l := text.reverse)
  have hNe := List.all_eq_true.mp hAll '\n' h
  simp at hNe

theorem closed_closedLines (text : List Char) : Closed (closedLines text) := by
  intro c hc
  rw [closedLines, List.getLast?_reverse] at hc
  have hHead := List.head?_dropWhile_not (p := (· ≠ '\n')) (l := text.reverse)
  rw [Option.mem_def.mp hc] at hHead
  simpa using hHead

theorem count_closedLines (text : List Char) : (closedLines text).count '\n' = text.count '\n' := by
  have hStart : (lineStart text).count '\n' = 0 := List.count_eq_zero.mpr (not_mem_lineStart text)
  have hText := congrArg (List.count '\n') (closedLines_append_lineStart text)
  rw [List.count_append, hStart] at hText
  exact hText

/-! ## Cutting into lines -/

theorem linesAfter_append {text : List Char} (hText : '\n' ∉ text) (before rest : List Char) :
    linesAfter before (text ++ rest) = linesAfter (text.reverse ++ before) rest := by
  induction text generalizing before with
  | nil => rfl
  | cons c text ih =>
    have hNe : c ≠ '\n' := fun h => hText (h ▸ List.mem_cons_self ..)
    have hRest : '\n' ∉ text := fun h => hText (List.mem_cons_of_mem _ h)
    rw [List.cons_append, linesAfter, if_neg hNe, ih hRest]
    simp

/-- The line that goes on where a text begins, and the lines after it. -/
theorem linesAfter_eq_cons {text : List Char} (hText : text ≠ []) (before : List Char) :
    linesAfter before text = (before.reverse ++ lineEnd text) :: lines (laterLines text) := by
  induction text generalizing before with
  | nil => exact absurd rfl hText
  | cons c text ih =>
    by_cases hFeed : c = '\n'
    · simp [linesAfter, lineEnd, laterLines, hFeed, lines]
    · cases text with
      | nil => simp [linesAfter, lineEnd, laterLines, hFeed, lines]
      | cons d text =>
        have hEnd : lineEnd (c :: d :: text) = c :: lineEnd (d :: text) := if_neg hFeed
        have hLater : laterLines (c :: d :: text) = laterLines (d :: text) := if_neg hFeed
        rw [linesAfter, if_neg hFeed, ih (by simp), hEnd, hLater]
        simp

/-- What is before a closed text belongs to its first line, so that an empty one has nothing before
it. -/
theorem linesAfter_closed {text : List Char} (hText : Closed text) (before : List Char)
    (hBefore : before ≠ [] → text ≠ []) (rest : List Char) :
    linesAfter before (text ++ rest) = linesAfter before text ++ lines rest ∧
      (linesAfter before text).length = text.count '\n' := by
  induction text generalizing before with
  | nil =>
    obtain rfl : before = [] := Classical.byContradiction fun h => hBefore h rfl
    exact ⟨rfl, rfl⟩
  | cons c text ih =>
    by_cases hFeed : c = '\n'
    · obtain ⟨hLines, hLength⟩ := ih hText.tail [] (absurd rfl)
      simp only [List.cons_append, linesAfter, hFeed, if_true, List.length_cons,
        List.count_cons_self, hLines, hLength, and_self]
    · simp only [List.cons_append, linesAfter, if_neg hFeed, List.count_cons_of_ne hFeed]
      exact ih hText.tail _ fun _ => hText.tail_ne_nil hFeed

theorem flatten_linesAfter (before text : List Char) :
    (linesAfter before text).flatten = before.reverse ++ text := by
  induction text generalizing before with
  | nil => cases before <;> simp [linesAfter]
  | cons c text ih =>
    by_cases hFeed : c = '\n'
    · simp [linesAfter, hFeed, ih]
    · simp [linesAfter, hFeed, ih]

/-- The lines of a text before a place, on it and after it. -/
theorem lines_around (before : List Char) {after : List Char} (hAfter : after ≠ []) :
    lines (before ++ after) =
      lines (closedLines before) ++
        (lineStart before ++ lineEnd after) :: lines (laterLines after) := by
  have hClosed := linesAfter_closed (closed_closedLines before) [] (absurd rfl)
  have hStart := not_mem_lineStart before
  have hText : before ++ after = closedLines before ++ (lineStart before ++ after) := by
    rw [← List.append_assoc, closedLines_append_lineStart]
  rw [hText, lines, (hClosed _).1, lines, lines, linesAfter_append hStart,
    linesAfter_eq_cons hAfter]
  simp

theorem length_lines_closedLines (text : List Char) :
    (lines (closedLines text)).length = text.count '\n' := by
  rw [← count_closedLines]
  exact (linesAfter_closed (closed_closedLines text) [] (absurd rfl) []).2

/-! ## Finding the line of a place -/

theorem columnIn?_append (number offset : Nat) (front : List (List Char)) {rest : List (List Char)}
    (hRest : rest ≠ []) :
    columnIn? number (byteLength front.flatten + offset) (front ++ rest) =
      columnIn? (number + front.length) offset rest := by
  induction front generalizing number with
  | nil => simp
  | cons line front ih =>
    have hMore : front ++ rest ≠ [] := by simp [hRest]
    obtain ⟨next, others, hNext⟩ := List.exists_cons_of_ne_nil hMore
    have hOffset : byteLength (line :: front).flatten + offset =
        byteLength line + (byteLength front.flatten + offset) := by
      rw [List.flatten_cons, byteLength_append]
      omega
    rw [hOffset, List.cons_append, hNext, columnIn?, if_neg (by omega), ← hNext,
      Nat.add_sub_cancel_left, ih, List.length_cons]
    · congr 1
      omega
    · rintro ⟨⟩

theorem columnIn?_of_lt {number offset : Nat} {line : List Char} (h : offset < byteLength line)
    (rest : List (List Char)) :
    columnIn? number offset (line :: rest) = some ⟨number, line, offset⟩ := by
  cases rest with
  | nil => rw [columnIn?, if_pos (by omega)]
  | cons next rest =>
    rw [columnIn?, if_pos h]
    rintro ⟨⟩

theorem column?_around (before : List Char) {after : List Char} (hAfter : after ≠ []) :
    column? (before ++ after) (byteLength before) =
      some ⟨1 + before.count '\n', lineStart before ++ lineEnd after,
        byteLength (lineStart before)⟩ := by
  have hEnd := byteLength_pos (lineEnd_ne_nil hAfter)
  have hBytes : byteLength before =
      byteLength (lines (closedLines before)).flatten + byteLength (lineStart before) := by
    rw [lines, flatten_linesAfter, List.reverse_nil, List.nil_append, ← byteLength_append,
      closedLines_append_lineStart]
  rw [column?, lines_around before hAfter, hBytes, columnIn?_append _ _ _ (by simp),
    length_lines_closedLines]
  apply columnIn?_of_lt
  rw [byteLength_append]
  omega

/-- Every place up to the end of the lines is on one of them. -/
theorem exists_columnIn? {lines : List (List Char)} (hLines : lines ≠ []) (number : Nat)
    {offset : Nat} (hOffset : offset ≤ byteLength lines.flatten) :
    ∃ place, columnIn? number offset lines = some place := by
  induction lines generalizing number offset with
  | nil => exact absurd rfl hLines
  | cons line lines ih =>
    by_cases hLine : offset < byteLength line
    · exact ⟨_, columnIn?_of_lt hLine lines⟩
    · rw [List.flatten_cons, byteLength_append] at hOffset
      cases lines with
      | nil =>
        rw [List.flatten_nil, byteLength_nil] at hOffset
        exact ⟨_, if_pos hOffset⟩
      | cons next lines =>
        obtain ⟨place, hPlace⟩ := ih (List.cons_ne_nil _ _) (number + 1)
          (Nat.sub_le_iff_le_add'.mpr hOffset)
        exact ⟨place, (if_neg hLine).trans hPlace⟩

theorem exists_column? {text : List Char} (hText : text ≠ []) {offset : Nat}
    (hOffset : offset ≤ byteLength text) : ∃ place, column? text offset = some place := by
  have hFlatten : (lines text).flatten = text := flatten_linesAfter [] text
  refine exists_columnIn? ?_ 1 (by rwa [hFlatten])
  intro hNil
  rw [hNil] at hFlatten
  exact hText hFlatten.symm

/-! ## Line breaks -/

/-- A line and what is left of it without its line feed and a carriage return before that. -/
inductive Unbroken : List Char → List Char → Prop where
  | last {line : List Char} : '\n' ∉ line.getLast? → Unbroken line line
  | feed {shown : List Char} : '\r' ∉ shown.getLast? → Unbroken (shown ++ ['\n']) shown
  | returnFeed (shown : List Char) : Unbroken (shown ++ ['\r', '\n']) shown

theorem unbroken_withoutBreak (line : List Char) : Unbroken line (withoutBreak line) := by
  unfold withoutBreak
  split
  · next front h =>
    obtain rfl : line = front.reverse ++ ['\r', '\n'] := by simpa using congrArg List.reverse h
    exact .returnFeed _
  · next front hReturn h =>
    obtain rfl : line = front.reverse ++ ['\n'] := by simpa using congrArg List.reverse h
    apply Unbroken.feed
    intro hLast
    rw [List.getLast?_reverse, Option.mem_def, List.head?_eq_some_iff] at hLast
    obtain ⟨others, rfl⟩ := hLast
    exact hReturn others rfl
  · next hReturn hFeed =>
    apply Unbroken.last
    intro hLast
    rw [← List.head?_reverse, Option.mem_def, List.head?_eq_some_iff] at hLast
    obtain ⟨others, h⟩ := hLast
    exact hFeed others h

theorem line?_around (before : List Char) {after : List Char} (hAfter : after ≠ []) :
    line? (before ++ after) (1 + before.count '\n') =
      some (withoutBreak (lineStart before ++ lineEnd after)) := by
  rw [Nat.add_comm, line?, lines_around before hAfter, ← length_lines_closedLines,
    List.getElem?_append_right (Nat.le_refl _), Nat.sub_self]
  rfl

/-! ## Texts of one line -/

/-- A text without line feeds. -/
def OneLine (text : List Char) : Prop :=
  '\n' ∉ text

instance (text : List Char) : Decidable (OneLine text) :=
  inferInstanceAs (Decidable ('\n' ∉ text))

theorem OneLine.of_subset {text part : List Char} (h : OneLine text) (hPart : part ⊆ text) :
    OneLine part :=
  fun hMem => h (hPart hMem)

theorem oneLine_append {first second : List Char} :
    OneLine (first ++ second) ↔ OneLine first ∧ OneLine second := by
  rw [OneLine, List.mem_append, not_or]
  rfl

theorem oneLine_cons {c : Char} {text : List Char} :
    OneLine (c :: text) ↔ c ≠ '\n' ∧ OneLine text := by
  rw [OneLine, List.mem_cons, not_or, ne_comm]
  rfl

theorem oneLine_replicate {c : Char} (hChar : c ≠ '\n') (count : Nat) :
    OneLine (List.replicate count c) :=
  fun hMem => hChar (List.eq_of_mem_replicate hMem).symm

/-- A text without line feeds is one line. -/
theorem lineStart_of_oneLine {text : List Char} (h : OneLine text) : lineStart text = text := by
  have hTake : (text.reverse ++ []).takeWhile (· ≠ '\n') = text.reverse ++ [] := by
    refine List.takeWhile_append_of_pos fun c hc => decide_eq_true ?_
    rintro rfl
    exact h (List.mem_reverse.mp hc)
  rw [List.append_nil] at hTake
  rw [lineStart, hTake, List.reverse_reverse]

theorem OneLine.append {front back : String} (hFront : OneLine front.toList)
    (hBack : OneLine back.toList) : OneLine (front ++ back).toList := by
  rw [String.toList_append, oneLine_append]
  exact ⟨hFront, hBack⟩

/-- A text of one line between two others. -/
theorem OneLine.enclosed {front inner back : String} (hFront : OneLine front.toList)
    (hInner : OneLine inner.toList) (hBack : OneLine back.toList) :
    OneLine (front ++ inner ++ back).toList :=
  (hFront.append hInner).append hBack

theorem oneLine_toDigits {base : Nat} (hBase : 1 < base) (hLimit : base ≤ 16) (n : Nat) :
    OneLine (Nat.toDigits base n) := by
  have hDigit : ∀ digit < 16, OneLine [Nat.digitChar digit] := by decide
  induction n using Nat.strongRecOn with
  | ind n ih =>
    rw [Nat.toDigits_eq_if hBase]
    split
    · next hLess => exact hDigit n (by omega)
    · next hMore =>
      have hRest := ih (n / base) (Nat.div_lt_self (by omega) hBase)
      have hLast : n % base < 16 := Nat.lt_of_lt_of_le (Nat.mod_lt n (by omega)) hLimit
      exact oneLine_append.mpr ⟨hRest, hDigit (n % base) hLast⟩

theorem oneLine_toString_nat (n : Nat) : OneLine (toString n).toList := by
  rw [Nat.toString_eq_ofList_toDigits, String.toList_ofList]
  exact oneLine_toDigits (by decide) (by decide) n

end Jingle.Text
