import Jingle.Proofs.Command.Listing
import Jingle.Proofs.Layout
import Jingle.Proofs.Shown

/-!
# What the command says about a source

The command goes through the steps of checking a source by itself and writes between them. What it
leaves behind is nevertheless told by the outcome of checking the source at once. It exits with a
status, unless the arrow of a report is too wide.

* `Agrees` says which output belongs to the outcome of `checkSource`.
* `check_agrees` says it about a source.
* `run_agrees` says it about the arguments of the command and the file that they name.
* `run_stopped` is about a source that the command does not report on.
-/

namespace Jingle.Command

open Syntax

/-! ## Arguments -/

/-- Arguments that ask for a check: the switches, and the file where no argument is a switch. -/
def Options.arguments (options : Options) : List String :=
  (if options.showTypes then ["--show-types"] else []) ++
    (if options.tokens then ["--tokens"] else []) ++ ["--", options.file]

theorem Pending.readFiles_singleton (pending : Pending) {file : String}
    (hNone : pending.file? = none) (hFile : file ≠ "") :
    pending.readFiles [file] = .check ⟨file, pending.showTypes, pending.tokens⟩ := by
  have hEmpty : file.isEmpty = false := by simpa using hFile
  simp [readFiles, addFile, hNone, hEmpty, finish]

theorem Request.ofArguments_arguments (options : Options) (hFile : options.file ≠ "") :
    Request.ofArguments options.arguments = .check options := by
  obtain ⟨file, showTypes, tokens⟩ := options
  have hRest := fun pending hNone => Pending.readFiles_singleton pending hNone hFile
  cases showTypes with
  | false =>
    cases tokens with
    | false => exact hRest ⟨none, false, false⟩ rfl
    | true => exact hRest ⟨none, false, true⟩ rfl
  | true =>
    cases tokens with
    | false => exact hRest ⟨none, true, false⟩ rfl
    | true => exact hRest ⟨none, true, true⟩ rfl

/-! ## Sources -/

/-- The line that lists a token: where the token stands, its kind, and the value of a name or a
literal. -/
def tokenLine (token : Token) : String :=
  let hasValue := token.kind ∈ [.identifier, .integer, .float, .char, .string, .bool]
  let value := if hasValue then token.value else ""
  s!"{token.line}: {token.kind.name} ({value})\n"

theorem tokenListing_eq (tokens : List Token) :
    tokenListing tokens = String.join (tokens.map tokenLine) := by
  have hKind (kind : Token.Kind) : kind.hasValue = true ↔
      kind ∈ [.identifier, .integer, .float, .char, .string, .bool] := by
    cases kind <;> decide
  have hEnd : ")\n" = ")" ++ "\n" := rfl
  have hLine (token : Token) : token.listing ++ "\n" = tokenLine token := by
    rw [Token.listing, tokenLine, hEnd]
    simp only [hKind, toString, String.append_assoc]
  rw [tokenListing, unlines, List.map_map]
  exact congrArg String.join (List.map_congr_left fun token _ => hLine token)

/-- The lines of the tokens of a source one after another, if they are asked for and the source is
cut into tokens. -/
def shownTokens (options : Options) (source : String) : String :=
  match Token.tokenize source with
  | .ok tokens => if options.tokens then String.join (tokens.map tokenLine) else ""
  | .error _ => ""

/-- The listing of the nodes of a source, if it is asked for and the source makes a program. -/
def shownTypes (options : Options) (source : String) : String :=
  match checkSource source with
  | .ok (block, _) => if options.showTypes then typeListing block else ""
  | .error _ => ""

/-- The output for a source agrees with the outcome of checking the source. -/
structure Agrees (options : Options) (source : String) (output : Output) : Prop where
  /-- A fault is reported, if the arrow of its report is not too wide. -/
  fault : ∀ fault, checkSource source = .error fault → ¬ fault.TooWide source →
    ∃ report, fault.report? options.file source = some report ∧ output.ending = .exit 1 report
  /-- The command stops only at a fault that has no report. -/
  stopped : output.ending = .stopped ↔
    ∃ fault, checkSource source = .error fault ∧ fault.TooWide source
  /-- There is nothing to report about a program without diagnostics. -/
  accepted : ∀ block, checkSource source = .ok (block, []) → output.ending = .exit 0 ""
  /-- Diagnostics are reported one after another and counted. -/
  refused : ∀ block diagnostics, checkSource source = .ok (block, diagnostics) →
    diagnostics ≠ [] →
    output.ending = .exit 1 (String.join (diagnostics.map (·.report options.file source)) ++
      s!"{diagnostics.length} error(s) found\n")
  /-- Tokens are listed before nodes, also where the tokens make no program. -/
  stdout : output.stdout = shownTokens options source ++ shownTypes options source
  /-- Each node has a line of its own. -/
  nodes : ∀ block diagnostics, checkSource source = .ok (block, diagnostics) →
    options.showTypes = true →
    Text.lines (shownTypes options source).toList =
      block.outline.map fun entry => (nodeLine entry).toList ++ ['\n']

/-- The steps of the command are those of checking a source. -/
theorem check_eq (options : Options) (source : String) :
    check options source =
      match checkSource source with
      | .error fault =>
        ⟨shownTokens options source, .ofReport (fault.report? options.file source)⟩
      | .ok (_, diagnostics) =>
        ⟨shownTokens options source ++ shownTypes options source,
          .exit (if diagnostics.isEmpty then 0 else 1)
            (summary diagnostics options.file source)⟩ := by
  unfold check shownTokens shownTypes
  cases hTokens : Token.tokenize source with
  | error fault =>
    have hSource : checkSource source = .error fault := by
      rw [checkSource, parseSource, hTokens]
      rfl
    rw [hSource]
  | ok tokens =>
    rw [checkSource_eq_of_tokenize hTokens]
    dsimp only
    rw [tokenListing_eq]
    cases Block.ofTokens tokens <;> rfl

theorem Ending.ofReport_eq_stopped_iff {report : Option String} :
    ofReport report = .stopped ↔ report = none := by
  cases report <;> simp [ofReport]

theorem check_agrees (options : Options) (source : String) :
    Agrees options source (check options source) := by
  have hCheck := check_eq options source
  refine ⟨?_, ?_, ?_, ?_, ?_, ?_⟩
  · intro fault hSource hWidth
    have hSome : fault.report? options.file source ≠ none := mt Fault.report?_eq_none_iff.mp hWidth
    obtain ⟨report, hReport⟩ := Option.ne_none_iff_exists'.mp hSome
    rw [hCheck, hSource]
    exact ⟨report, hReport, congrArg Ending.ofReport hReport⟩
  · rw [hCheck]
    cases hSource : checkSource source with
    | error fault =>
      refine Ending.ofReport_eq_stopped_iff.trans (Fault.report?_eq_none_iff.trans ?_)
      simp
    | ok outcome => simp
  · intro block hSource
    rw [hCheck, hSource]
    rfl
  · intro block diagnostics hSource hSome
    have hEmpty : diagnostics.isEmpty = false := by simpa using hSome
    rw [hCheck, hSource]
    simp [hEmpty, summary]
  · rw [hCheck]
    cases hSource : checkSource source with
    | error fault => simp [shownTypes, hSource]
    | ok outcome => rfl
  · intro block diagnostics hSource hShow
    rw [shownTypes, hSource]
    simp only [hShow, if_true]
    exact lines_typeListing block

/-! ## Files -/

/-- A text is read back from its bytes. -/
theorem decode_toUTF8 (source : String) : decode source.toUTF8 = .ok source := by
  have hText : String.fromUTF8? source.toUTF8 = some source := dif_pos source.isValidUTF8
  rw [decode, hText]

/-- The output of the command if the file that it reads has the given contents, or cannot be
read. -/
def answer (arguments : List String) (contents : Except ReadFailure String) : Output :=
  run (m := Id) (fun _ => contents) arguments

theorem answer_toUTF8 {arguments : List String} {options : Options}
    (hArguments : Request.ofArguments arguments = .check options) (source : String) :
    answer arguments (decode source.toUTF8) = check options source := by
  rw [answer, run, hArguments, decode_toUTF8]
  rfl

/-- Every file with a name can be checked with any switches. Whatever arguments ask for that, the
command reads the file and answers by what it has read alone, and if the file holds a text, then the
answer agrees with the outcome of checking the text. -/
theorem run_agrees {m : Type → Type} [Monad m] (read : String → m (Except ReadFailure String))
    (options : Options) :
    (options.file ≠ "" → Request.ofArguments options.arguments = .check options) ∧
      ∀ arguments, Request.ofArguments arguments = .check options →
        run read arguments = (do return answer arguments (← read options.file)) ∧
          ∀ source : String, Agrees options source (answer arguments (decode source.toUTF8)) := by
  refine ⟨Request.ofArguments_arguments options, ?_⟩
  intro arguments hArguments
  refine ⟨?_, ?_⟩
  · simp only [answer, run, hArguments]
    congr 1
    funext contents
    cases contents <;> rfl
  · intro source
    rw [answer_toUTF8 hArguments]
    exact check_agrees options source

/-- The switches may stand on both sides of the file. The program assigns to an unknown name. -/
theorem run_agrees_assignment :
    let options : Options := ⟨"a.jingle", true, true⟩
    let arguments := ["--tokens", "a.jingle", "--show-types"]
    let output := answer arguments (decode "x = 1;".toUTF8)
    let tokens :=
      "1: Identifier (x)\n1: Assignment ()\n1: Integer (1)\n1: Semicolon ()\n1: EOF ()\n"
    let nodes :=
      "1: AssignmentStmt type: None\n1:     Location(name=\"x\") type: None\n" ++
      "1:     IntegerExpr(value=1) type: int\n"
    options.file ≠ "" ∧ Request.ofArguments options.arguments = .check options ∧
      Request.ofArguments arguments = .check options ∧ Agrees options "x = 1;" output ∧
      output.stdout = tokens ++ nodes ∧
      output.ending = .exit 1
        ("Error: [Name] Name 'x' was not defined, line 1\n-> a.jingle\n  |\n1 | x = 1;\n" ++
          "1 error(s) found\n") := by
  intro options arguments output tokens nodes
  have hFile : options.file ≠ "" := by decide
  have hArguments : Request.ofArguments arguments = .check options := by decide
  obtain ⟨hAsked, hAnswered⟩ := run_agrees (m := Id) (fun _ => .error .notFound) options
  have hAgrees : Agrees options "x = 1;" output := (hAnswered arguments hArguments).2 "x = 1;"
  have hTokens : Token.tokenize "x = 1;" = .ok [⟨.identifier, "x", 0, 1, 1⟩,
      ⟨.assign, "=", 2, 3, 1⟩, ⟨.integer, "1", 4, 5, 1⟩, ⟨.semicolon, ";", 5, 6, 1⟩,
      ⟨.eof, "EOF", 6, 6, 1⟩] := by decide
  let assignment : Stmt := .assign ⟨⟨1, none⟩, "x"⟩ (.literal (.integer 1) ⟨1, none⟩) ⟨1, none⟩
  have hChecked : checkSource "x = 1;" =
      .ok ((Block.mk 1 [assignment]).check.1, [⟨1, .nameNotDefined "x"⟩]) := by
    rw [checkSource_eq_of_tokenize hTokens]
    rfl
  have hListed : shownTokens options "x = 1;" = tokens := by
    rw [shownTokens, hTokens]
    decide
  have hTyped : shownTypes options "x = 1;" = nodes := by
    rw [shownTypes, hChecked]
    decide
  have hStdout := hAgrees.stdout
  rw [hListed, hTyped] at hStdout
  exact ⟨hFile, hAsked hFile, hArguments, hAgrees, hStdout,
    (hAgrees.refused _ _ hChecked (by simp)).trans (by decide)⟩

/-! ## A report that cannot be written -/

section Spaced

open Text Token

/-- A source with spaces before a character that begins no token. -/
def spaced (count : Nat) : String :=
  "echo 1" ++ String.ofList (List.replicate count ' ') ++ "#;"

theorem toList_spaced (count : Nat) : (spaced count).toList =
    ("echo 1".toList ++ List.replicate count ' ') ++ ['#', ';'] := by
  simp [spaced, String.toList_append]

theorem byteLength_spaced (count : Nat) :
    byteLength ("echo 1".toList ++ List.replicate count ' ') = 6 + count := by
  rw [byteLength_append, byteLength_replicate]
  exact congrArg (6 + ·) (Nat.mul_one count)

/-- The pieces before the character are a word, a number and blanks. -/
theorem checkSource_spaced (count : Nat) : checkSource (spaced (count + 1)) =
    .error ⟨.unrecognised "#", (6 + (count + 1)).toUInt32⟩ := by
  let blanks := List.replicate (count + 1) ' '
  have hSpace : ∀ c ∈ [' '], isBlank c = true := List.forall_mem_singleton.mpr rfl
  have hWord (rest : List Char) :
      scan 0 .start (['e', 'c', 'h', 'o'] ++ ([' '] ++ rest)) = _ :=
    scan_of_first? .start (List.cons_ne_nil _ _) (rfl : _ = some (4, Role.word))
  have hNumber (mark : Mark) : scan 0 mark (['1'] ++ (blanks ++ ['#', ';'])) = _ :=
    scan_of_first? mark (List.cons_ne_nil _ _) (rfl : _ = some (1, Role.plain .integer))
  have hText : (spaced (count + 1)).toList =
      ['e', 'c', 'h', 'o'] ++ ([' '] ++ (['1'] ++ (blanks ++ ['#', ';']))) := toList_spaced _
  have hOffset : (Mark.start.advance ("echo 1".toList ++ blanks)).offset =
      (6 + (count + 1)).toUInt32 := by
    rw [← byteLength_spaced, Mark.offset, Mark.advance_bytes]
    exact congrArg Nat.toUInt32 (Nat.zero_add _)
  rw [checkSource, parseSource, tokenize, hText, hWord, scan_blanks hSpace, hNumber,
    scan_replicate rfl, ← Mark.advance_append, ← Mark.advance_append, ← Mark.advance_append,
    ← hOffset]
  rfl

/-- The line of the character is not indented. -/
theorem column?_spaced (count : Nat) :
    ∃ place, column? (spaced count).toList (6 + count) = some place ∧
      place.column - (place.line.takeWhile Report.isIndent).length = 6 + count := by
  let before := "echo 1".toList ++ List.replicate count ' '
  have hLine : OneLine before :=
    oneLine_append.mpr ⟨by decide, oneLine_replicate (by decide) count⟩
  have hPlace := column?_around before (List.cons_ne_nil '#' [';'])
  rw [lineStart_of_oneLine hLine, byteLength_spaced, ← toList_spaced] at hPlace
  exact ⟨_, hPlace, rfl⟩

/-- A character that begins no token, after seventy thousand spaces. The command stops without a
report on it. -/
theorem run_stopped :
    let source := spaced 70000
    let fault : Fault := ⟨.unrecognised "#", 70006⟩
    let output := answer ["a.jingle"] (decode source.toUTF8)
    checkSource source = .error fault ∧ fault.report? "a.jingle" source = none ∧
      output.ending = .stopped ∧ output.ending.status = 101 := by
  intro source fault output
  have hFault : checkSource source = .error fault := checkSource_spaced 69999
  have hWide : fault.TooWide source := by
    obtain ⟨place, hPlace, hColumn⟩ := column?_spaced 70000
    exact ⟨place, hPlace, by rw [hColumn]; decide⟩
  have hReport : fault.report? "a.jingle" source = none :=
    Fault.report?_eq_none_iff.mpr hWide
  have hOutput : output = check ⟨"a.jingle", false, false⟩ source :=
    answer_toUTF8 (by decide) source
  have hStopped : output.ending = .stopped := by
    rw [hOutput, (check_agrees _ source).stopped]
    exact ⟨fault, hFault, hWide⟩
  exact ⟨hFault, hReport, hStopped, congrArg Ending.status hStopped⟩

end Spaced

end Jingle.Command
