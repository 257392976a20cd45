import Jingle.Proofs.Grammar.Viable
import Jingle.Proofs.Layout
import Jingle.Proofs.Text.Column
import Jingle.Proofs.Token.Truncation
import Jingle.Proofs.Typing.Erasure
import Jingle.Proofs.Typing.Lines
import Jingle.Report

/-!
# Problems in their source

Faults and diagnostics are shown with the line of the source that they are about. The place of a
fault is where no piece of the source can be taken or where a token begins, which may be the end of
the source. The line of a diagnostic is that of a node of the program, and so of a token.

* `Trimmed line shown` says what is left of a line without the blanks at its ends.
* `Fault.Shown` and `Diagnostic.Shown` say what a report is made of.
* `Fault.report?_eq_none_iff` says which faults have no report, since their arrow is too wide.
* `checkSource_shown` says that every fault and every diagnostic of a source is shown with a line of
  the source.
-/

namespace Jingle

open Syntax Grammar Text

/-! ## Places of faults -/

/-- Reading stops at one of the tokens. -/
theorem Syntax.Block.exists_of_ofTokens_eq_error {tokens : List Token} {fault : Fault}
    (h : Block.ofTokens tokens = .error fault) :
    ∃ token ∈ (Cursor.ofTokens tokens).tokens, fault.offset = token.start := by
  obtain ⟨passed, stop, hPassed, hOffset, -⟩ :=
    Block.begins_of_ofTokens_eq_error (Nat.le_refl _) h
  refine ⟨stop.current, ?_, hOffset⟩
  rw [hPassed.1]
  exact List.mem_append_right _ (List.mem_cons_self ..)

/-- A source is refused where no piece of it can be taken, or where one of its tokens begins. -/
theorem checkSource_eq_error_cases {source : String} {fault : Fault}
    (h : checkSource source = .error fault) :
    Token.tokenize source = .error fault ∨ ∃ tokens, Token.tokenize source = .ok tokens ∧
      ∃ token ∈ tokens, fault.offset = token.start := by
  cases hTokens : Token.tokenize source with
  | error fault' =>
    rw [checkSource, parseSource, hTokens] at h
    cases h
    exact .inl rfl
  | ok tokens =>
    rw [checkSource_eq_of_tokenize hTokens] at h
    cases hRead : Block.ofTokens tokens with
    | ok block =>
      rw [hRead] at h
      cases h
    | error fault' =>
      rw [hRead] at h
      cases h
      obtain ⟨token, hMem, hOffset⟩ := Block.exists_of_ofTokens_eq_error hRead
      rw [Token.tokens_ofTokens_of_tokenize hTokens] at hMem
      exact .inr ⟨tokens, rfl, token, hMem, hOffset⟩

/-- A source is refused at a place in it or at its end. -/
theorem offset_le_of_checkSource_eq_error {source : String} {fault : Fault}
    (hSize : byteLength source.toList < UInt32.size) (h : checkSource source = .error fault) :
    fault.offset.toNat ≤ byteLength source.toList := by
  rcases checkSource_eq_error_cases h with hStop | ⟨tokens, hTokens, token, hMem, hOffset⟩
  · obtain ⟨before, c, rest, hSource, hOffset, -⟩ := Token.exists_stopsAt_of_tokenize hSize hStop
    rw [← hOffset]
    exact byteLength_le_of_isPrefix ⟨c :: rest, hSource.symm⟩
  · rw [hOffset]
    exact (Token.span_le_of_mem_tokenize hSize hTokens hMem).1

/-! ## Lines of diagnostics -/

/-- A line of a text that can be shown. -/
def Text.HasLine (text : List Char) (line : UInt32) : Prop :=
  ∃ shown, line? text line.toNat = some shown

theorem Token.hasLine_of_tokenize {source : String} {tokens : List Token}
    (hSize : byteLength source.toList < UInt32.size) (hTokens : tokenize source = .ok tokens)
    {token : Token} (hMem : token ∈ tokens) (hKind : token.kind ≠ .eof) :
    HasLine source.toList token.line := by
  obtain ⟨before, part, rest, hSource, hWritten, -, hLine⟩ :=
    exists_text_of_tokenize hSize hTokens hMem hKind
  have hAfter : part ++ rest ≠ [] := by simp [hWritten.ne_nil]
  rw [HasLine, hSource, hLine]
  exact ⟨_, line?_around before hAfter⟩

/-- The nodes of a program that is read from a source are on lines of the source, and so are its
diagnostics. -/
theorem hasLine_of_checkSource {source : String} {block : Block} {diagnostics : List Diagnostic}
    (hSize : byteLength source.toList < UInt32.size)
    (h : checkSource source = .ok (block, diagnostics)) :
    ∀ d ∈ diagnostics, HasLine source.toList d.line := by
  obtain ⟨tokens, program, hTokens, hRead, hCheck⟩ := exists_program_of_checkSource h
  obtain ⟨rfl, rfl⟩ := Prod.mk.inj hCheck
  obtain ⟨passed, c', hPassed, -, hIn⟩ := Block.ofTokens_sound hRead
  rw [Cursor.Passes, Token.tokens_ofTokens_of_tokenize hTokens] at hPassed
  have hNodes : Stmt.AllIn (Node.On (HasLine source.toList)) program.body := by
    apply hIn.on
    intro token hMem
    have hToken : token ∈ tokens := hPassed.1 ▸ List.mem_append_left _ hMem
    exact Token.hasLine_of_tokenize hSize hTokens hToken (hPassed.2 token hMem)
  exact Stmt.checkAll_on .initial none hNodes

/-- Checking a program again reports the same, so that every diagnostic is on a line of a node of
the annotated program. -/
theorem Syntax.Block.exists_node_of_check (program : Block) :
    ∀ d ∈ program.check.2, ∃ entry ∈ program.check.1.outline, entry.2.line = d.line := by
  let OnNode (line : UInt32) : Prop := ∃ entry ∈ program.check.1.outline, entry.2.line = line
  have hNodes : Stmt.AllIn (Node.On OnNode) program.check.1.body :=
    (Stmt.forall_outlines_iff _ 0 _).mp fun entry hMem => ⟨entry, hMem, rfl⟩
  have hAgain := Stmt.checkAll_on .initial none hNodes
  have hSame : Stmt.checkAll .initial none program.check.1.body =
      Stmt.checkAll .initial none program.body :=
    Stmt.checkAll_checkAll .initial none program.body
  rw [hSame] at hAgain
  exact hAgain

/-! ## Reports -/

/-- What is left of a line without the blanks at both ends. -/
structure Text.Trimmed (line shown : List Char) : Prop where
  cut : ∃ front back, line = front ++ shown ++ back ∧
    (∀ c ∈ front, isBlank c = true) ∧ ∀ c ∈ back, isBlank c = true
  head : ∀ c ∈ shown.head?, isBlank c = false
  last : ∀ c ∈ shown.getLast?, isBlank c = false

theorem Text.trimmed_trim (line : List Char) : Trimmed line (trim line) := by
  have hHead (text : List Char) : ∀ c ∈ (text.dropWhile isBlank).head?, isBlank c = false := by
    intro c hc
    have hNot := List.head?_dropWhile_not (p := isBlank) (l := text)
    rw [Option.mem_def.mp hc] at hNot
    simpa using hNot
  have hBlank (text : List Char) : ∀ c ∈ text.takeWhile isBlank, isBlank c = true :=
    List.all_eq_true.mp List.all_takeWhile
  let kept := line.dropWhile isBlank
  have hKept : kept = trim line ++ (kept.reverse.takeWhile isBlank).reverse := by
    rw [trim, ← List.reverse_append, List.takeWhile_append_dropWhile, List.reverse_reverse]
  refine ⟨⟨line.takeWhile isBlank, (kept.reverse.takeWhile isBlank).reverse, ?_, hBlank line, ?_⟩,
    ?_, ?_⟩
  · rw [List.append_assoc, ← hKept, List.takeWhile_append_dropWhile]
  · intro c hc
    exact hBlank _ c (List.mem_reverse.mp hc)
  · intro c hc
    apply hHead line c
    rw [Option.mem_def, show line.dropWhile isBlank = _ from hKept, List.head?_append,
      Option.mem_def.mp hc]
    rfl
  · intro c hc
    rw [trim, List.getLast?_reverse] at hc
    exact hHead _ c hc

/-- The blanks that stand below the number of a line and the space after it. -/
def Report.margin (number : String) : String :=
  String.ofList (List.replicate (number.length + 1) ' ')

/-- A fault is shown with the line of its place, without the blanks at the ends of the line, and
with an arrow below the line. Only an arrow wider than 65535 is in the way of the report. -/
structure Fault.Shown (fault : Fault) (source : String) (place : Column) (shown : List Char) :
    Prop where
  found : column? source.toList fault.offset.toNat = some place
  numbered : Numbered source.toList place.number place.line
  trimmed : Trimmed place.line shown
  report : ∀ file,
    let number := toString place.number
    let margin := Report.margin number
    let text := String.ofList shown
    let count := place.column - (place.line.takeWhile Report.isIndent).length
    let dashes := String.ofList (List.replicate count '-')
    fault.report? file source =
      if count + 1 ≤ 65535 then
        some (fault.title file ++ s!"{margin}|\n{number} | {text}\n{margin}| {dashes}^\n")
      else none

/-- A diagnostic is shown with its line, without the line break and the blanks at the ends of the
line. -/
structure Diagnostic.Shown (d : Diagnostic) (source : String) (line unbroken shown : List Char) :
    Prop where
  numbered : Numbered source.toList d.line.toNat line
  cut : Unbroken line unbroken
  found : line? source.toList d.line.toNat = some unbroken
  trimmed : Trimmed unbroken shown
  report : ∀ file,
    let number := toString d.line
    let margin := Report.margin number
    let text := String.ofList shown
    d.report file source = d.title file ++ s!"{margin}|\n{number} | {text}\n"

namespace Report

theorem bar_eq (number : String) : bar number = margin number ++ "|" :=
  String.ofList_append

theorem excerpt_eq (number : String) (line : List Char) :
    excerpt number line = s!"{margin number}|\n{number} | {String.ofList (trim line)}\n" := by
  have hBreak : "|\n" = "|" ++ "\n" := rfl
  rw [excerpt, bar_eq, hBreak]
  simp only [toString, String.append_assoc]

/-- The line below an excerpt. -/
theorem arrowLine_eq (number : String) (dashes : List Char) :
    let arrow := String.ofList (dashes ++ ['^'])
    s!"{bar number} {arrow}\n" = s!"{margin number}| {String.ofList dashes}^\n" := by
  have hSpace : "| " = "|" ++ " " := rfl
  have hHead : "^\n" = String.ofList ['^'] ++ "\n" := rfl
  intro arrow
  rw [bar_eq, hSpace, hHead, show arrow = _ from String.ofList_append]
  simp only [toString, String.append_assoc]

theorem arrow?_eq_none_iff {line : List Char} {column : Nat} :
    arrow? line column = none ↔ widest < dashes line column + 1 := by
  simp only [arrow?, ite_eq_right_iff, reduceCtorEq, imp_false, Nat.not_le]

end Report

/-- The report of a fault that has a place, if its arrow can be drawn. -/
theorem Fault.report?_of_column? {fault : Fault} {source : String} {place : Column}
    (h : column? source.toList fault.offset.toNat = some place) (file : String) :
    fault.report? file source =
      (Report.arrow? place.line place.column).map fun arrow =>
        fault.title file ++ Report.excerpt (toString place.number) place.line ++
          s!"{Report.bar (toString place.number)} {arrow}\n" := by
  rw [Fault.report?, h]
  exact bind_pure_comp ..

theorem Fault.shown_of_column? {fault : Fault} {source : String} {place : Column}
    (h : column? source.toList fault.offset.toNat = some place) :
    fault.Shown source place (trim place.line) := by
  obtain ⟨before, after, hSplits⟩ := column?_eq_some_iff.mp h
  refine ⟨h, hSplits.numbered, trimmed_trim place.line, ?_⟩
  intro file number margin text count dashes
  rw [Fault.report?_of_column? h, Report.arrow?]
  by_cases hWide : count + 1 ≤ 65535
  · have hArrow : Report.dashes place.line place.column + 1 ≤ Report.widest := hWide
    rw [if_pos hWide, if_pos hArrow, Option.map_some, Report.excerpt_eq, String.append_assoc,
      Report.arrowLine_eq]
    simp only [toString, String.append_assoc, margin, number, text, dashes, count, Report.dashes]
  · have hArrow : ¬ Report.dashes place.line place.column + 1 ≤ Report.widest := hWide
    rw [if_neg hWide, if_neg hArrow]
    rfl

/-- A fault has a place, and the arrow to that place is too wide. -/
def Fault.TooWide (fault : Fault) (source : String) : Prop :=
  ∃ place, column? source.toList fault.offset.toNat = some place ∧
    65535 < place.column - (place.line.takeWhile Report.isIndent).length + 1

theorem Fault.report?_eq_none_iff {fault : Fault} {file source : String} :
    fault.report? file source = none ↔ fault.TooWide source := by
  cases hPlace : column? source.toList fault.offset.toNat with
  | none => simp [Fault.report?, Fault.TooWide, hPlace]
  | some place =>
    rw [Fault.report?_of_column? hPlace, Option.map_eq_none_iff, Report.arrow?_eq_none_iff,
      Fault.TooWide, hPlace]
    constructor
    · intro hWide
      exact ⟨place, rfl, hWide⟩
    · rintro ⟨_, hSame, hWide⟩
      cases hSame
      exact hWide

theorem Diagnostic.exists_shown {d : Diagnostic} {source : String}
    (h : HasLine source.toList d.line) :
    ∃ line unbroken shown, d.Shown source line unbroken shown := by
  obtain ⟨unbroken, hFound⟩ := h
  obtain ⟨line, hNumbered, hCut⟩ := exists_numbered_of_line? hFound
  refine ⟨line, unbroken, trim unbroken, hNumbered, hCut, hFound, trimmed_trim unbroken, ?_⟩
  intro file
  rw [Diagnostic.report, hFound]
  exact congrArg (d.title file ++ ·) (Report.excerpt_eq _ unbroken)

/-- Every problem of a source whose offsets fit into their words is shown with a line of the source:
a fault with the line of its place, and a diagnostic with its line, which is the line of a node of
the annotated program. -/
theorem checkSource_shown {source : String} (hSize : byteLength source.toList < UInt32.size) :
    (∀ fault, checkSource source = .error fault →
      ∃ place shown, fault.Shown source place shown) ∧
      ∀ block diagnostics, checkSource source = .ok (block, diagnostics) → ∀ d ∈ diagnostics,
        (∃ line unbroken shown, d.Shown source line unbroken shown) ∧
        ∃ entry ∈ block.outline, entry.2.line = d.line := by
  constructor
  · intro fault hFault
    have hText : source.toList ≠ [] := by
      intro hNil
      obtain rfl : source = "" := String.toList_inj.mp hNil
      cases hFault
    obtain ⟨place, hPlace⟩ :=
      exists_column? hText (offset_le_of_checkSource_eq_error hSize hFault)
    exact ⟨place, _, Fault.shown_of_column? hPlace⟩
  · intro block diagnostics hChecked d hMem
    refine ⟨Diagnostic.exists_shown (hasLine_of_checkSource hSize hChecked d hMem), ?_⟩
    cases hParsed : parseSource source with
    | error fault =>
      rw [checkSource, hParsed] at hChecked
      cases hChecked
    | ok program =>
      rw [checkSource, hParsed] at hChecked
      cases hChecked
      exact program.exists_node_of_check d hMem

/-- A fault at the end of a source, after its last line feed, and a diagnostic on the second line of
another source. -/
theorem checkSource_shown_end :
    let refused := "echo 1 +\n"
    let fault : Fault := ⟨.unexpectedFor "EOF" "expected an expression", 9⟩
    let accepted := "\r\nx = 1;"
    let d : Diagnostic := ⟨2, .nameNotDefined "x"⟩
    (checkSource refused = .error fault ∧ (∃ place shown, fault.Shown refused place shown) ∧
      fault.report? "main" refused = some
        ("Error: UnexpectedTokenDetailed (Unexpected token: `EOF`, expected an expression)\n" ++
          "-> main\n  |\n1 | echo 1 +\n  | ---------^\n")) ∧
      ∃ block, checkSource accepted = .ok (block, [d]) ∧
        (∃ line unbroken shown, d.Shown accepted line unbroken shown) ∧
        d.report "main" accepted =
          "Error: [Name] Name 'x' was not defined, line 2\n-> main\n  |\n2 | x = 1;\n" ∧
        ∃ entry ∈ block.outline, entry.2.line = d.line := by
  intro refused fault accepted d
  have hRefused : Token.tokenize refused = .ok [⟨.echoWord, "echo", 0, 4, 1⟩,
      ⟨.integer, "1", 5, 6, 1⟩, ⟨.plus, "+", 7, 8, 1⟩, ⟨.eof, "EOF", 9, 9, 2⟩] := by decide
  have hFault : checkSource refused = .error fault := by
    rw [checkSource_eq_of_tokenize hRefused]
    rfl
  have hAccepted : Token.tokenize accepted = .ok [⟨.identifier, "x", 2, 3, 2⟩,
      ⟨.assign, "=", 4, 5, 2⟩, ⟨.integer, "1", 6, 7, 2⟩, ⟨.semicolon, ";", 7, 8, 2⟩,
      ⟨.eof, "EOF", 8, 8, 2⟩] := by decide
  obtain ⟨block, hChecked⟩ : ∃ block, checkSource accepted = .ok (block, [d]) := by
    rw [checkSource_eq_of_tokenize hAccepted]
    exact ⟨_, rfl⟩
  have hPlace := (checkSource_shown (by decide)).1 fault hFault
  obtain ⟨hLine, hEntry⟩ :=
    (checkSource_shown (by decide)).2 _ _ hChecked d (List.mem_singleton_self d)
  exact ⟨⟨hFault, hPlace, by decide⟩, block, hChecked, hLine, by decide, hEntry⟩

end Jingle
