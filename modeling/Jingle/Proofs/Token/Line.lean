import Jingle.Proofs.Text.Line
import Jingle.Proofs.Token.Lossless

/-!
# Lines of tokens

The line of a token is counted while its source is cut into pieces. What is shown to a reader of a
fault is found by the offset of a token, and what is shown to a reader of a diagnostic by the number
of a line. All three speak of the same line of the source, on which the text of the token begins.

* `tokenize_line_agrees` says so of every token of a source.
* `tokenize_lines_sorted` says that the lines of the tokens do not go back.
-/

namespace Jingle.Token

open Text

/-- A token is on the line that its offset lies on and that has the number of the token's line, for
every token of a source whose offsets fit into their words. From the column of the token on that
line goes on with the text of the token up to a line feed. -/
theorem tokenize_line_agrees {source : String} {tokens : List Token}
    (hSize : byteLength source.toList < UInt32.size) (hTokens : tokenize source = .ok tokens)
    {token : Token} (hMem : token ∈ tokens) (hKind : token.kind ≠ .eof) :
    ∃ before text rest front back shown,
      source.toList = before ++ (text ++ rest) ∧ byteLength before = token.start.toNat ∧
      byteLength before + byteLength text = token.stop.toNat ∧
      token.line.toNat = 1 + before.count '\n' ∧
      column? source.toList token.start.toNat =
        some ⟨token.line.toNat, front ++ back, byteLength front⟩ ∧
      text.takeWhile (· ≠ '\n') <+: back ∧
      line? source.toList token.line.toNat = some shown ∧ Unbroken (front ++ back) shown := by
  obtain ⟨before, text, rest, hSource, hWritten, hSpan, hLine⟩ :=
    exists_text_of_tokenize hSize hTokens hMem hKind
  obtain ⟨hStart, hStop⟩ := Prod.mk.inj hSpan
  have hAfter : text ++ rest ≠ [] := by simp [hWritten.ne_nil]
  refine ⟨before, text, rest, lineStart before, lineEnd (text ++ rest), _, hSource, hStart.symm,
    hStop.symm, hLine, ?_, takeWhile_isPrefix_lineEnd text rest, ?_, unbroken_withoutBreak _⟩
  · rw [hSource, hStart, hLine, column?_around before hAfter]
  · rw [hSource, hLine, line?_around before hAfter]

/-- The second token of a source that goes over three lines, one of them with a carriage return. -/
theorem tokenize_line_agrees_string :
    let source := "echo\r\n  \"é\r\nb\";"
    let token : Token := ⟨.string, "é\r\nb", 8, 15, 2⟩
    tokenize source = .ok
        [⟨.echoWord, "echo", 0, 4, 1⟩, token, ⟨.semicolon, ";", 15, 16, 3⟩,
          ⟨.eof, "EOF", 16, 16, 3⟩] ∧
      ∃ before text rest front back shown,
        source.toList = before ++ (text ++ rest) ∧ byteLength before = 8 ∧
        byteLength before + byteLength text = 15 ∧ 2 = 1 + before.count '\n' ∧
        column? source.toList 8 = some ⟨2, front ++ back, byteLength front⟩ ∧
        text.takeWhile (· ≠ '\n') <+: back ∧
        line? source.toList 2 = some shown ∧ Unbroken (front ++ back) shown := by
  intro source token
  have hSize : byteLength source.toList < UInt32.size := by decide
  have hTokens : tokenize source = .ok
      [⟨.echoWord, "echo", 0, 4, 1⟩, token, ⟨.semicolon, ";", 15, 16, 3⟩,
        ⟨.eof, "EOF", 16, 16, 3⟩] := by decide
  exact ⟨hTokens, tokenize_line_agrees hSize hTokens (.tail _ (.head _)) (by decide)⟩

/-- Lines do not go back from one token to the next, nor from the place from which the tokens are
laid out. -/
theorem Laid.lines_sorted {before text : List Char} {tokens : List Token}
    (h : Laid (Mark.start.advance before) text tokens)
    (hFits : (before ++ text).count '\n' + 1 < UInt32.size) :
    (∀ token ∈ tokens, (Mark.start.advance before).line ≤ token.line) ∧
      tokens.Pairwise (·.line ≤ ·.line) := by
  generalize hMark : Mark.start.advance before = mark at h
  induction h generalizing before with
  | @last _ gap _ =>
    subst hMark
    rw [← Mark.advance_append]
    exact ⟨List.forall_mem_singleton.mpr (Mark.line_le_advance hFits), List.pairwise_singleton ..⟩
  | @token _ gap part rest kind value tokens _ _ _ ih =>
    subst hMark
    have hPart : (before ++ gap ++ part).count '\n' + 1 < UInt32.size := by
      simp only [List.count_append] at hFits ⊢
      omega
    have hGap : (before ++ gap).count '\n' + 1 < UInt32.size := by
      simp only [List.count_append] at hFits ⊢
      omega
    have hRest : (before ++ (gap ++ part) ++ rest).count '\n' + 1 < UInt32.size := by
      simpa only [List.append_assoc] using hFits
    obtain ⟨hLater, hSorted⟩ := ih hRest (Mark.advance_append ..)
    have hToken : ∀ token ∈ tokens, (Mark.start.advance (before ++ gap)).line ≤ token.line := by
      intro token hMem
      have hOver := Mark.line_le_advance hPart
      rw [List.append_assoc, Mark.advance_append _ before (gap ++ part)] at hOver
      exact UInt32.le_trans hOver (hLater token hMem)
    rw [← Mark.advance_append]
    refine ⟨List.forall_mem_cons.mpr ⟨Mark.line_le_advance hGap, ?_⟩, .cons hToken hSorted⟩
    intro token hMem
    exact UInt32.le_trans (Mark.line_le_advance hGap) (hToken token hMem)

/-- The lines of the tokens of a source do not go back, as long as they fit. -/
theorem tokenize_lines_sorted {source : String} {tokens : List Token}
    (hFits : source.toList.count '\n' + 1 < UInt32.size) (h : tokenize source = .ok tokens) :
    tokens.Pairwise (·.line ≤ ·.line) := by
  have hLaid : Laid (Mark.start.advance []) source.toList tokens := by
    rw [Mark.advance_nil]
    exact laid_of_scan h
  exact (hLaid.lines_sorted hFits).2

end Jingle.Token
