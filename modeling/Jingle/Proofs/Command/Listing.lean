import Jingle.Command.Run
import Jingle.Proofs.Text.Line

/-!
# Listings

The nodes of a program are listed one below the other. Whatever names, texts and numbers stand in a
program, none of them brings a line feed into the listing.

* `Text.oneLine_quoted` and `Number.Double.oneLine_text` say it about quoted texts and numbers.
* `Command.lines_typeListing` says that each node is listed on a line of its own.
-/

namespace Jingle

/-! ## Texts of one line -/

namespace Text

theorem oneLine_toString_int (value : Int) : OneLine (toString value).toList := by
  cases value with
  | ofNat n => exact oneLine_toString_nat n
  | negSucc n =>
    have hText : toString (Int.negSucc n) = "-" ++ toString (n + 1) := rfl
    rw [hText]
    exact .append (by decide) (oneLine_toString_nat (n + 1))

/-- A line feed is one of the characters that quoted text writes with a backslash. -/
theorem oneLine_quotedForm (quote c : Char) : OneLine (quotedForm quote c) := by
  unfold quotedForm
  split
  · decide
  split
  · decide
  split
  · decide
  split
  · decide
  next hFeed =>
  have hSelf : OneLine [c] := oneLine_cons.mpr ⟨hFeed, by decide⟩
  split
  · exact oneLine_cons.mpr ⟨by decide, hSelf⟩
  split
  · rw [codeForm, oneLine_append, oneLine_append]
    exact ⟨⟨by decide, oneLine_toDigits (by decide) (by decide) _⟩, by decide⟩
  · exact hSelf

theorem oneLine_quoted (text : String) : OneLine (quoted text).toList := by
  have hForms : OneLine (text.toList.flatMap (quotedForm '"')) := by
    intro hMem
    obtain ⟨c, -, hForm⟩ := List.mem_flatMap.mp hMem
    exact oneLine_quotedForm '"' c hForm
  rw [quoted, String.toList_ofList, List.cons_append, oneLine_cons, oneLine_append]
  exact ⟨by decide, hForms, by decide⟩

theorem oneLine_quotedChar (c : Char) : OneLine (quotedChar c).toList := by
  rw [quotedChar, String.toList_ofList, List.cons_append, oneLine_cons, oneLine_append]
  exact ⟨by decide, oneLine_quotedForm '\'' c, by decide⟩

end Text

namespace Number

open Text

theorem Decimal.oneLine_text (decimal : Decimal) : OneLine decimal.text := by
  have hFigures : OneLine decimal.figures.1 := by
    have hDigits : OneLine (Nat.toDigits 10 decimal.digits) :=
      oneLine_toDigits (by decide) (by decide) decimal.digits
    apply OneLine.of_subset hDigits
    intro c hMem
    exact List.mem_reverse.mp ((List.dropWhile_sublist _).subset (List.mem_reverse.mp hMem))
  have hTake := fun count => hFigures.of_subset (List.take_subset count _)
  have hDrop := fun count => hFigures.of_subset (List.drop_subset count _)
  have hZeros : ∀ count, OneLine (List.replicate count '0') := oneLine_replicate (by decide)
  unfold text
  generalize decimal.figures = parts at *
  obtain ⟨figures, point⟩ := parts
  dsimp only
  split
  · unfold positional
    split
    · simp only [oneLine_append, hZeros, hFigures, and_true]
      decide
    split
    · simp only [oneLine_append, hZeros, hFigures, true_and]
      decide
    · simp only [oneLine_append, hTake, hDrop, true_and, and_true]
      decide
  · unfold scientific
    simp only [oneLine_append, oneLine_cons, oneLine_toString_int, hTake, true_and, and_true]
    refine ⟨?_, by decide⟩
    split
    · decide
    · exact oneLine_cons.mpr ⟨by decide, hDrop 1⟩

theorem Double.oneLine_text (value : Double) : OneLine value.text.toList := by
  cases value with
  | nan => decide
  | infinite negative => cases negative <;> decide
  | finite negative mantissa exponent =>
    have hSize : OneLine (if mantissa = 0 then ['0', '.', '0']
        else (Rounding.ofFinite mantissa exponent).shortest.text) := by
      split
      · decide
      · exact Decimal.oneLine_text _
    rw [text, String.toList_ofList]
    cases negative with
    | false => exact hSize
    | true => exact oneLine_cons.mpr ⟨by decide, hSize⟩

end Number

/-! ## Listings of nodes -/

namespace Syntax

open Text

theorem Literal.oneLine_label (value : Literal) : OneLine value.label.toList := by
  cases value with
  | integer value => exact .enclosed (by decide) (oneLine_toString_int value) (by decide)
  | float value => exact .enclosed (by decide) value.oneLine_text (by decide)
  | char value => exact .enclosed (by decide) (oneLine_quotedChar value) (by decide)
  | string value => exact .enclosed (by decide) (oneLine_quoted value) (by decide)
  | bool value => cases value <;> decide

theorem Stmt.oneLine_label (s : Stmt) : OneLine s.label.toList := by
  cases s with
  | varDecl name | constDecl name | fnDecl name =>
    exact .enclosed (by decide) (oneLine_quoted name) (by decide)
  | echo => exact (show OneLine "EchoStmt".toList by decide)
  | branch => exact (show OneLine "IfStmt".toList by decide)
  | loop => exact (show OneLine "WhileStmt".toList by decide)
  | assign => exact (show OneLine "AssignmentStmt".toList by decide)
  | ret => exact (show OneLine "ReturnStmt".toList by decide)

theorem Expr.oneLine_label (e : Expr) : OneLine e.label.toList := by
  cases e with
  | literal value => exact value.oneLine_label
  | binary op | unary op => exact .enclosed (by decide) (oneLine_quoted op.symbol) (by decide)
  | symbol => exact (show OneLine "SymbolExpr".toList by decide)
  | call callee => exact .enclosed (by decide) (oneLine_quoted callee) (by decide)

theorem Node.oneLine_label (node : Node) : OneLine node.label.toList := by
  cases node with
  | stmt s => exact s.oneLine_label
  | expr e => exact e.oneLine_label
  | location l => exact .enclosed (by decide) (oneLine_quoted l.name) (by decide)
  | typeName a => exact .enclosed (by decide) (oneLine_quoted a.name) (by decide)
  | parameter p => exact .enclosed (by decide) (oneLine_quoted p.name) (by decide)

end Syntax

namespace Command

open Syntax Text

theorem oneLine_nodeLine (entry : Nat × Node) : OneLine (nodeLine entry).toList := by
  obtain ⟨depth, node⟩ := entry
  have hNumber : OneLine (toString node.line).toList := oneLine_toString_nat node.line.toNat
  have hIndent : OneLine (String.ofList (List.replicate (4 * depth) ' ')).toList := by
    rw [String.toList_ofList]
    exact oneLine_replicate (by decide) (4 * depth)
  have hTy : OneLine ((node.ty.map Ty.name).getD "None").toList := by
    cases node.ty with
    | none => decide
    | some ty => cases ty <;> decide
  have hColon : OneLine ": ".toList := by decide
  have hType : OneLine " type: ".toList := by decide
  exact ((hNumber.enclosed hColon hIndent).enclosed node.oneLine_label hType).append hTy

/-- Lines that are written one after another can be told apart again. -/
theorem lines_unlines {texts : List String} (hTexts : ∀ text ∈ texts, OneLine text.toList) :
    lines (unlines texts).toList = texts.map (·.toList ++ ['\n']) := by
  induction texts with
  | nil => rfl
  | cons text texts ih =>
    obtain ⟨hText, hOthers⟩ := List.forall_mem_cons.mp hTexts
    have hUnlines : (unlines (text :: texts)).toList =
        text.toList ++ '\n' :: (unlines texts).toList := by
      simp [unlines, String.toList_join]
    rw [hUnlines, lines, linesAfter_append hText, linesAfter, if_pos rfl, List.map_cons,
      ← ih hOthers, lines]
    simp

/-- Each node of a program is listed on a line of its own. -/
theorem lines_typeListing (block : Block) : lines (typeListing block).toList =
    block.outline.map fun entry => (nodeLine entry).toList ++ ['\n'] := by
  have hLines : ∀ text ∈ block.outline.map nodeLine, OneLine text.toList := by
    intro text hMem
    obtain ⟨entry, -, rfl⟩ := List.mem_map.mp hMem
    exact oneLine_nodeLine entry
  rw [typeListing, lines_unlines hLines, List.map_map]
  rfl

end Command

end Jingle
