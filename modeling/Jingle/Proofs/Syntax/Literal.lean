import Jingle.Proofs.Grammar.Viable
import Jingle.Proofs.Token.Origin

/-!
# Literals in quotes

Every string and every character can be written as a literal and means itself. The other way round,
a character literal that is cut from a source means one character, or it is a backslash before a
character that gives it no meaning.

* `Token.Denotes` and `Token.Refused` say what becomes of a literal where an operand is read.
* `CharBody.exists_unescape_iff` says which bodies of character literals denote one character.
* `Literal.quoted_means_itself` says it of sources.
-/

namespace Jingle

open Syntax Grammar

/-! ## Tokens of literals -/

namespace Token

/-- Wherever an operand begins with the token, the operand is the literal. -/
def Denotes (token : Token) (value : Literal) : Prop :=
  ∀ (expr : Power → Reader Expr) (steps : Nat) (c : Cursor), c.current = token →
    Expr.readPrimary expr steps c = .ok (.literal value ⟨token.line, none⟩) c.advance

/-- Wherever an operand begins with the token, reading stops at the beginning of the token for the
cause. -/
def Refused (token : Token) (cause : Fault.Cause) : Prop :=
  ∀ (expr : Power → Reader Expr) (steps : Nat) (c : Cursor), c.current = token →
    Expr.readPrimary expr steps c = .error ⟨cause, token.start⟩ c.advance

variable {token : Token}

theorem denotes_of_ofToken {value : Literal} (hName : token.kind ≠ .identifier)
    (h : Literal.ofToken token = .ok value) : token.Denotes value := by
  rintro expr steps c rfl
  rw [Expr.readPrimary, Reader.bind_of_eq_ok (Reader.next_eq_ok.mpr ⟨rfl, rfl⟩), if_neg hName, h]
  rfl

theorem refused_iff {cause : Fault.Cause} (hName : token.kind ≠ .identifier) :
    token.Refused cause ↔ Literal.ofToken token = .error cause := by
  constructor
  · intro h
    have hRead := h (fun _ => Reader.exhausted) 0 ⟨token, []⟩ rfl
    cases hValue : Literal.ofToken token with
    | ok value => cases hRead.symm.trans (denotes_of_ofToken hName hValue _ 0 ⟨token, []⟩ rfl)
    | error cause' =>
      have hError : Expr.readPrimary (fun _ => Reader.exhausted) 0 ⟨token, []⟩ = _ :=
        Expr.readPrimary_eq_error hName hValue
      cases hRead.symm.trans hError
      rfl
  · rintro h expr steps c rfl
    exact Expr.readPrimary_eq_error hName h

end Token

/-! ## Character literals -/

namespace Token

open Text

/-- The characters to which a backslash gives a meaning. -/
def escapable : List Char :=
  ['n', 't', 'r', '0', '\\', '"', '\'']

theorem escapeOf?_eq_none_iff (c : Char) : escapeOf? c = none ↔ c ∉ escapable := by
  unfold escapeOf?
  split
  all_goals simp_all [escapable]

theorem unescape_unknown {c : Char} (h : escapeOf? c = none) : unescape ['\\', c] = ['\\', c] := by
  have hBackslash : c ≠ '\\' := by
    rintro rfl
    cases h
  rw [unescape, h]
  · exact congrArg _ (unescape_cons hBackslash [])
  all_goals simp

theorem unescape_code {high low : Char} (hHigh : isDigitOf 16 high = true)
    (hLow : isDigitOf 16 low = true) : ∃ c, unescape ['\\', 'x', high, low] = [c] := by
  obtain ⟨a, hHigh⟩ := Option.isSome_iff_exists.mp hHigh
  obtain ⟨b, hLow⟩ := Option.isSome_iff_exists.mp hLow
  refine ⟨Char.ofNat (16 * a + b), ?_⟩
  rw [unescape, hHigh, hLow]
  rfl

/-- The body of a character literal denotes one character, unless it is a backslash before a
character that gives it no meaning. -/
theorem CharBody.exists_unescape_iff {body : List Char} (h : CharBody body) :
    (∃ c, unescape body = [c]) ↔ ¬ ∃ c, body = ['\\', c] ∧ c ∉ escapable := by
  cases h with
  | code hHigh hLow =>
    refine iff_of_true (unescape_code hHigh hLow) ?_
    rintro ⟨c, hBody, -⟩
    cases hBody
  | @escape c hFeed =>
    cases hEscape : escapeOf? c with
    | some d =>
      refine iff_of_true ⟨d, unescape_backslash hEscape []⟩ ?_
      rintro ⟨e, hBody, hUnknown⟩
      cases hBody
      rw [(escapeOf?_eq_none_iff c).mpr hUnknown] at hEscape
      cases hEscape
    | none =>
      refine iff_of_false ?_ (not_not_intro ⟨c, rfl, (escapeOf?_eq_none_iff c).mp hEscape⟩)
      rintro ⟨d, hBody⟩
      rw [unescape_unknown hEscape] at hBody
      cases hBody
  | @plain c _ hBackslash _ =>
    refine iff_of_true ⟨c, unescape_cons hBackslash []⟩ ?_
    rintro ⟨d, hBody, -⟩
    cases hBody

end Token

namespace Syntax.Literal

open Token

theorem ofToken_string {token : Token} (hKind : token.kind = .string) :
    ofToken token = .ok (.string token.value) := by
  simp only [ofToken, hKind]

theorem ofToken_char {token : Token} (hKind : token.kind = .char) {c : Char}
    (hValue : token.value.toList = [c]) : ofToken token = .ok (.char c) := by
  simp only [ofToken, hKind, hValue]

theorem ofToken_char_eq_error {token : Token} (hKind : token.kind = .char)
    (hValue : ¬ ∃ c, token.value.toList = [c]) :
    ofToken token = .error (.badChar token.value) := by
  simp only [ofToken, hKind]
  split
  · next c hc => exact absurd ⟨c, hc⟩ hValue
  · rfl

theorem refused_char_iff {token : Token} (hKind : token.kind = .char) :
    token.Refused (.badChar token.value) ↔ ¬ ∃ c, token.value.toList = [c] := by
  have hName : token.kind ≠ .identifier := hKind ▸ by decide
  constructor
  · rintro hRefused ⟨c, hValue⟩
    cases ((refused_iff hName).mp hRefused).symm.trans (ofToken_char hKind hValue)
  · intro hValue
    exact (refused_iff hName).mpr (ofToken_char_eq_error hKind hValue)

/-- A character literal that is cut from a source is refused exactly if it is a backslash before a
character that gives it no meaning. -/
theorem refused_iff_of_cutFrom {source piece : List Char} {token : Token}
    (hCut : CutFrom source piece token) (hKind : token.kind = .char) :
    token.Refused (.badChar token.value) ↔ ∃ c, piece = ['\'', '\\', c, '\''] ∧ c ∉ escapable := by
  have hQuote : token.kind.quote? = some '\'' := hKind ▸ rfl
  obtain ⟨body, hForm, rfl, hValue⟩ := hCut.shaped.exists_body hQuote
  rw [hKind] at hForm
  rw [refused_char_iff hKind, hValue, String.toList_ofList, CharBody.exists_unescape_iff hForm,
    not_not]
  -- The quotes around the body are the same on both sides.
  have hBody (c : Char) : body = ['\\', c] ↔ '\'' :: (body ++ ['\'']) = ['\'', '\\', c, '\''] := by
    constructor
    · rintro rfl
      rfl
    · intro hPiece
      exact List.append_cancel_right (List.cons.inj hPiece).2
  simp only [hBody]

/-! ## Sources -/

/-- The source that is a string in quotes, with a backslash before every quote and every backslash
in it, is one token, which is the string. The source that is a character in quotes is one token,
which is the character. And every token of a character that is cut from a source is one character
or is refused, and it is refused exactly if its text is a backslash before a character that gives it
no meaning. -/
theorem quoted_means_itself :
    (∀ value : String, ∃ token last,
      tokenize (String.ofList ('"' :: (value.toList.flatMap stringForm ++ ['"']))) =
          .ok [token, last] ∧
        token.kind = .string ∧ token.value = value ∧ last.kind = .eof ∧
          token.Denotes (.string value)) ∧
      (∀ c : Char, ∃ token last,
        tokenize (String.ofList ('\'' :: (charForm c ++ ['\'']))) = .ok [token, last] ∧
          token.kind = .char ∧ last.kind = .eof ∧ token.Denotes (.char c)) ∧
        ∀ (source : String) (tokens : List Token) (token : Token),
          tokenize source = .ok tokens → token ∈ tokens → token.kind = .char →
            ((∃ c, token.Denotes (.char c)) ∨ token.Refused (.badChar token.value)) ∧
              (∃ piece, CutFrom source.toList piece token) ∧
                ∀ piece, CutFrom source.toList piece token →
                  (token.Refused (.badChar token.value) ↔
                    ∃ c, piece = ['\'', '\\', c, '\''] ∧
                      c ∉ ['n', 't', 'r', '0', '\\', '"', '\'']) := by
  refine ⟨?_, ?_, ?_⟩
  · intro value
    refine ⟨_, _, (taken_string value []).tokenize_eq, rfl, rfl, rfl, ?_⟩
    exact denotes_of_ofToken Kind.noConfusion (ofToken_string rfl)
  · intro c
    refine ⟨_, _, (taken_char c []).tokenize_eq, rfl, rfl, ?_⟩
    exact denotes_of_ofToken Kind.noConfusion (ofToken_char rfl (String.toList_singleton c))
  · intro source tokens token hTokens hMem hKind
    have hEnd : token.kind ≠ .eof := hKind ▸ by decide
    have hName : token.kind ≠ .identifier := hKind ▸ by decide
    refine ⟨?_, exists_cutFrom_of_tokenize hTokens hMem hEnd, ?_⟩
    · by_cases hValue : ∃ c, token.value.toList = [c]
      · obtain ⟨c, hc⟩ := hValue
        exact .inl ⟨c, denotes_of_ofToken hName (ofToken_char hKind hc)⟩
      · exact .inr ((refused_char_iff hKind).mpr hValue)
    · exact fun piece hCut => refused_iff_of_cutFrom hCut hKind

/-- The letter `x` begins a code, but without digits after it a backslash before it has no
meaning. -/
theorem quoted_means_itself_code :
    let token : Token := ⟨.char, "\\x", 0, 4, 1⟩
    tokenize "'\\x'" = .ok [token, .endAt 4 1] ∧ token.Refused (.badChar "\\x") := by
  intro token
  have hTokens : tokenize "'\\x'" = .ok [token, .endAt 4 1] := by decide
  have hCut : CutFrom "'\\x'".toList ['\'', '\\', 'x', '\''] token :=
    ⟨[], [], .quoted .char, rfl, rfl, by decide⟩
  obtain ⟨-, -, hRefused⟩ := quoted_means_itself.2.2 _ _ token hTokens List.mem_cons_self rfl
  exact ⟨hTokens, (hRefused _ hCut).mpr ⟨'x', rfl, by decide⟩⟩

end Syntax.Literal

end Jingle
