import Jingle.Program
import Jingle.Proofs.Grammar.Layout
import Jingle.Proofs.Grammar.Program
import Jingle.Proofs.Token.Lossless
import Jingle.Proofs.Typing.Layout

/-!
# The layout of a source

Blanks, comments and line breaks between tokens, and the spelling of literals with the same value,
change where things stand in a source and nothing else about the program that it makes.

* `checkSource_of_lexemes_eq` compares two sources that are cut into the same lexemes.
-/

namespace Jingle

open Syntax Grammar

/-- The tokens of a source end in the mark of the end, so that reading adds none. -/
theorem Token.tokens_ofTokens_of_tokenize {source : String} {tokens : List Token}
    (h : Token.tokenize source = .ok tokens) : (Cursor.ofTokens tokens).tokens = tokens := by
  obtain ⟨front, rfl, -⟩ := (Token.laid_of_scan h).exists_last
  exact Cursor.tokens_ofTokens rfl

theorem checkSource_eq_of_tokenize {source : String} {tokens : List Token}
    (h : Token.tokenize source = .ok tokens) :
    checkSource source = (Block.ofTokens tokens).map Block.check := by
  rw [checkSource, parseSource, h]
  rfl

/-- A source that is not refused is cut into tokens that make a program. -/
theorem exists_program_of_checkSource {source : String} {block : Block}
    {diagnostics : List Diagnostic} (h : checkSource source = .ok (block, diagnostics)) :
    ∃ tokens program, Token.tokenize source = .ok tokens ∧ Block.ofTokens tokens = .ok program ∧
      program.check = (block, diagnostics) := by
  cases hTokens : Token.tokenize source with
  | error fault =>
    rw [checkSource, parseSource, hTokens] at h
    cases h
  | ok tokens =>
    rw [checkSource_eq_of_tokenize hTokens] at h
    cases hRead : Block.ofTokens tokens with
    | error fault =>
      rw [hRead] at h
      cases h
    | ok program =>
      rw [hRead] at h
      exact ⟨tokens, program, rfl, hRead, Except.ok.inj h⟩

/-- Two sources whose tokens have the same kinds and values are both refused, for the same cause and
at tokens with the same index, or both make programs. The programs differ only in their lines, and
their diagnostics differ only in their lines and in those of earlier declarations. -/
theorem checkSource_of_lexemes_eq {first second : String} {tokens tokens' : List Token}
    (hFirst : Token.tokenize first = .ok tokens) (hSecond : Token.tokenize second = .ok tokens')
    (hLexemes : tokens.map Token.lexeme = tokens'.map Token.lexeme) :
    (∃ (cause : Fault.Cause) (i : Nat) (t t' : Token),
      tokens[i]? = some t ∧ tokens'[i]? = some t' ∧
        checkSource first = .error ⟨cause, t.start⟩ ∧
          checkSource second = .error ⟨cause, t'.start⟩) ∨
    (∃ (program program' : Block) (diagnostics diagnostics' : List Diagnostic),
      checkSource first = .ok (program, diagnostics) ∧
        checkSource second = .ok (program', diagnostics') ∧
          program.eraseLines = program'.eraseLines ∧
            diagnostics.map Diagnostic.eraseLines = diagnostics'.map Diagnostic.eraseLines) := by
  rw [checkSource_eq_of_tokenize hFirst, checkSource_eq_of_tokenize hSecond]
  rcases Block.ofTokens_agree hLexemes (Token.tokens_ofTokens_of_tokenize hFirst)
      (Token.tokens_ofTokens_of_tokenize hSecond) with
    ⟨cause, t, t', ⟨i, hToken, hToken'⟩, hFault, hFault'⟩ |
    ⟨program, program', hRead, hRead', hLines⟩
  · left
    rw [hFault, hFault']
    exact ⟨cause, i, t, t', hToken, hToken', rfl, rfl⟩
  · right
    obtain ⟨hTree, hDiagnostics⟩ := Block.check_of_eraseLines_eq hLines
    rw [hRead, hRead']
    exact ⟨_, _, _, _, rfl, rfl, hTree, hDiagnostics⟩

/-- A name that is declared twice, on one line and on three. The second source writes the character
by an escape and has a comment. -/
theorem checkSource_of_lexemes_eq_const :
    let first := "const c = '\t'; const c = 1;"
    let second := "const c = '\\t'; // once\n\nconst c = 1;"
    let tokens : List Token :=
      [⟨.constWord, "const", 0, 5, 1⟩, ⟨.identifier, "c", 6, 7, 1⟩, ⟨.assign, "=", 8, 9, 1⟩,
        ⟨.char, "\t", 10, 13, 1⟩, ⟨.semicolon, ";", 13, 14, 1⟩, ⟨.constWord, "const", 15, 20, 1⟩,
        ⟨.identifier, "c", 21, 22, 1⟩, ⟨.assign, "=", 23, 24, 1⟩, ⟨.integer, "1", 25, 26, 1⟩,
        ⟨.semicolon, ";", 26, 27, 1⟩, ⟨.eof, "EOF", 27, 27, 1⟩]
    let tokens' : List Token :=
      [⟨.constWord, "const", 0, 5, 1⟩, ⟨.identifier, "c", 6, 7, 1⟩, ⟨.assign, "=", 8, 9, 1⟩,
        ⟨.char, "\t", 10, 14, 1⟩, ⟨.semicolon, ";", 14, 15, 1⟩, ⟨.constWord, "const", 25, 30, 3⟩,
        ⟨.identifier, "c", 31, 32, 3⟩, ⟨.assign, "=", 33, 34, 3⟩, ⟨.integer, "1", 35, 36, 3⟩,
        ⟨.semicolon, ";", 36, 37, 3⟩, ⟨.eof, "EOF", 37, 37, 3⟩]
    Token.tokenize first = .ok tokens ∧ Token.tokenize second = .ok tokens' ∧
      tokens.map Token.lexeme = tokens'.map Token.lexeme ∧
      ((∃ (cause : Fault.Cause) (i : Nat) (t t' : Token),
        tokens[i]? = some t ∧ tokens'[i]? = some t' ∧
          checkSource first = .error ⟨cause, t.start⟩ ∧
            checkSource second = .error ⟨cause, t'.start⟩) ∨
      (∃ (program program' : Block) (diagnostics diagnostics' : List Diagnostic),
        checkSource first = .ok (program, diagnostics) ∧
          checkSource second = .ok (program', diagnostics') ∧
            program.eraseLines = program'.eraseLines ∧
              diagnostics.map Diagnostic.eraseLines =
                diagnostics'.map Diagnostic.eraseLines)) := by
  intro first second tokens tokens'
  have hFirst : Token.tokenize first = .ok tokens := by decide
  have hSecond : Token.tokenize second = .ok tokens' := by decide
  have hLexemes : tokens.map Token.lexeme = tokens'.map Token.lexeme := rfl
  exact ⟨hFirst, hSecond, hLexemes, checkSource_of_lexemes_eq hFirst hSecond hLexemes⟩

end Jingle
