import Jingle.Proofs.Token.Truncation

/-!
# Sources that are joined at a line feed

A line feed keeps apart what stands before and after it, with one exception: a comment that has no
end. It is cut into a slash and a star, and an end that stands later would make it a comment.
Without such a pair the tokens of a source stay what they are if a line feed and another source
follow, and the tokens of the other source are moved.

* `CommentsClosed` says that tokens have no such pair.
* `Pattern.first?_append_feed` says that a piece stays what it is, and `scan_append_feed` that
  tokens do.
* `scan_moved` says that the tokens of a text do not depend on its place.
* `tokenize_append_feed` says both of sources.
-/

namespace Jingle

open Text

/-! ## Moving -/

/-- A place with more bytes and line feeds before it. -/
def Text.Mark.moved (mark : Mark) (bytes feeds : Nat) : Mark :=
  ⟨mark.bytes + bytes, mark.line + feeds.toUInt32⟩

/-- A token with more bytes and line feeds before it. -/
def Token.moved (bytes feeds : Nat) (token : Token) : Token :=
  ⟨token.kind, token.value, token.start + bytes.toUInt32, token.stop + bytes.toUInt32,
    token.line + feeds.toUInt32⟩

/-- A fault with more bytes before it. -/
def Fault.moved (bytes : Nat) (fault : Fault) : Fault :=
  ⟨fault.cause, fault.offset + bytes.toUInt32⟩

namespace Text.Mark

theorem offset_moved (mark : Mark) (bytes feeds : Nat) :
    (mark.moved bytes feeds).offset = mark.offset + bytes.toUInt32 :=
  UInt32.ofNat_add _ _

theorem advance_moved (mark : Mark) (bytes feeds : Nat) (text : List Char) :
    (mark.moved bytes feeds).advance text = (mark.advance text).moved bytes feeds := by
  simp only [advance, moved, Mark.mk.injEq]
  constructor
  · omega
  · rw [UInt32.add_assoc, UInt32.add_comm feeds.toUInt32, UInt32.add_assoc]

/-- The beginning of a text that stands after another one. -/
theorem advance_start (text : List Char) :
    start.advance text = start.moved (byteLength text) (text.count '\n') :=
  rfl

end Text.Mark

namespace Token

theorem ofText_moved (mark : Mark) (bytes feeds : Nat) (kind : Kind) (value : String)
    (text : List Char) :
    ofText (mark.moved bytes feeds) kind value text =
      (ofText mark kind value text).moved bytes feeds := by
  simp only [ofText, moved, Mark.advance_moved, Mark.offset_moved]
  rfl

theorem ofPiece?_moved (mark : Mark) (bytes feeds : Nat) (piece : List Char) (role : Role) :
    (ofPiece? (mark.moved bytes feeds) piece role).toList =
      (ofPiece? mark piece role).toList.map (moved bytes feeds) := by
  cases role with
  | gap => rfl
  | plain kind => simp [ofPiece?, ofText_moved]
  | quoted kind => simp [ofPiece?, ofText_moved]
  | word => simp [ofPiece?, ofText_moved]

/-- What a text is cut into, with more bytes and line feeds before it. -/
def movedResult (bytes feeds : Nat) : Except Fault (List Token) → Except Fault (List Token)
  | .ok tokens => .ok (tokens.map (moved bytes feeds))
  | .error fault => .error (fault.moved bytes)

/-- What a text is cut into does not depend on its place, but for the places of the tokens. -/
theorem scan_moved (skipped : Nat) (mark : Mark) (bytes feeds : Nat) (text : List Char) :
    scan skipped (mark.moved bytes feeds) text =
      movedResult bytes feeds (scan skipped mark text) := by
  induction text generalizing skipped mark with
  | nil =>
    simp only [scan, movedResult, Mark.offset_moved]
    rfl
  | cons c text ih =>
    cases skipped with
    | succ skipped => exact ih skipped mark
    | zero =>
      rw [scan, scan]
      cases hFirst : Pattern.first? Pattern.table (c :: text) with
      | none =>
        simp only [movedResult, Mark.offset_moved]
        rfl
      | some found =>
        obtain ⟨n, role⟩ := found
        simp only [Mark.advance_moved, ih, ofPiece?_moved]
        cases scan (n - 1) (mark.advance ((c :: text).take n)) text with
        | error fault => rfl
        | ok tokens => exact congrArg Except.ok List.map_append.symm

/-! ## Pieces before a line feed -/

open Shape

/-- A shape takes the same if no text of its form goes over the end of the text. -/
theorem Shape.Munches.append_eq {shape : Shape} {Form : List Char → Prop} (h : shape.Munches Form)
    {text more : List Char} (hEnd : ∀ c tail, c :: tail <+: more → ¬ Form (text ++ c :: tail)) :
    shape (text ++ more) = shape text := by
  apply h.congr
  intro piece hForm
  constructor
  · intro hPiece
    rcases List.prefix_or_prefix_of_prefix hPiece (List.prefix_append text more) with
      hShort | ⟨tail, rfl⟩
    · exact hShort
    · cases tail with
      | nil => simp
      | cons c tail =>
        exact absurd hForm (hEnd c tail ((List.prefix_append_right_inj text).mp hPiece))
  · intro hPiece
    exact hPiece.trans (List.prefix_append text more)

/-- A form of texts without line feeds. -/
def Feedless (Form : List Char → Prop) : Prop :=
  ∀ ⦃piece : List Char⦄, Form piece → '\n' ∉ piece

theorem Shape.Munches.append_feed {shape : Shape} {Form : List Char → Prop} (h : shape.Munches Form)
    (hFeedless : Feedless Form) (text rest : List Char) :
    shape (text ++ '\n' :: rest) = shape text := by
  apply h.append_eq
  intro c tail hTail hForm
  obtain ⟨rfl, -⟩ := List.cons_prefix_cons.mp hTail
  exact hFeedless hForm (by simp)

namespace Feedless

theorem allOf {p : Char → Bool} (h : p '\n' = false) : Feedless (AllOf p) := by
  intro piece hPiece hFeed
  cases h.symm.trans (hPiece '\n' hFeed)

theorem one {p : Char → Bool} (h : p '\n' = false) :
    Feedless fun piece => ∃ c, piece = [c] ∧ p c = true := by
  rintro _ ⟨c, rfl, hc⟩ hFeed
  rw [List.mem_singleton.mp hFeed] at h
  cases h.symm.trans hc

theorem eq {word : List Char} (h : '\n' ∉ word) : Feedless (· = word) := by
  rintro _ rfl
  exact h

theorem joined {First Second : List Char → Prop} (h : Feedless First) (h' : Feedless Second) :
    Feedless (Joined First Second) := by
  rintro _ ⟨front, back, rfl, hFront, hBack⟩ hFeed
  rcases List.mem_append.mp hFeed with hIn | hIn
  · exact h hFront hIn
  · exact h' hBack hIn

theorem exponentForm : Feedless ExponentForm := by
  rintro _ ⟨hLetter, hSign, -, hDigits⟩
  have hDigits' := allOf (p := isDigit) rfl hDigits
  rcases hLetter with rfl | rfl <;> rcases hSign with rfl | rfl | rfl <;> simp [hDigits']

theorem floatForm : Feedless FloatForm := by
  rintro _ (⟨⟨hWhole, hPlaces, -⟩, hTail⟩ | ⟨-, hDigits, hTail⟩)
  · have hWhole' := allOf (p := isDigit) rfl hWhole
    have hPlaces' := allOf (p := isDigit) rfl hPlaces
    rcases hTail with rfl | hTail
    · simp [hWhole', hPlaces']
    · simp [hWhole', hPlaces', exponentForm hTail]
  · have hDigits' := allOf (p := isDigit) rfl hDigits
    simp [hDigits', exponentForm hTail]

theorem integerForm : Feedless IntegerForm := by
  have hLetters : ∀ mark ∈ radixLetters, mark.1 ≠ '\n' ∧ isDigitOf mark.2 '\n' = false := by decide
  rintro _ (⟨hLetter, -, hDigits⟩ | ⟨-, hDigits⟩)
  · obtain ⟨hNe, hFeed⟩ := hLetters _ hLetter
    simp [Ne.symm hNe, allOf hFeed hDigits]
  · exact allOf rfl hDigits

theorem charLiteral :
    Feedless fun piece => ∃ body, CharBody body ∧ piece = '\'' :: (body ++ ['\'']) := by
  have hNo : isDigitOf 16 '\n' = false := rfl
  rintro _ ⟨body, hBody, rfl⟩
  cases hBody with
  | code hHigh hLow =>
    have hHigh' := one hNo ⟨_, rfl, hHigh⟩
    have hLow' := one hNo ⟨_, rfl, hLow⟩
    rw [List.mem_singleton] at hHigh' hLow'
    simp [hHigh', hLow']
  | escape hFeed => simp [Ne.symm hFeed]
  | plain _ _ hFeed => simp [Ne.symm hFeed]

end Feedless

/-- A shape that is opened by another one takes the same if it is not opened, and if it has already
taken something. -/
theorem Shape.Exact.append_eq {first second : Shape} {Form : List Char → Prop}
    (h : (first.andThen second).Exact Form) {text more : List Char}
    (hFirst : first (text ++ more) = first text)
    (hOpen : first text ≠ none → first.andThen second text ≠ none) :
    first.andThen second (text ++ more) = first.andThen second text := by
  cases hText : first.andThen second text with
  | some n => exact h.append hText more
  | none =>
    have hNone : first text = none := Classical.byContradiction fun hSome => hOpen hSome hText
    exact andThen_of_none (hFirst.trans hNone)

/-- A text in which nothing is left open: it is not blank to its end, and a comment or a string at
its beginning has an end. -/
structure Sealed (text : List Char) : Prop where
  visible : ∃ c ∈ text, isBlank c = false
  comment : exactly ['/', '*'] text ≠ none → blockComment text ≠ none
  string : one (· = '"') text ≠ none → stringLiteral text ≠ none

namespace Pattern

theorem table_append_feed {text : List Char} (h : Sealed text) (rest : List Char) :
    ∀ pattern ∈ table, pattern.shape (text ++ '\n' :: rest) = pattern.shape text := by
  have hBlanks : run isBlank (text ++ '\n' :: rest) = run isBlank text := by
    apply (munches_run isBlank).append_eq
    rintro d tail - ⟨-, hAll⟩
    obtain ⟨c, hMem, hBlank⟩ := h.visible
    cases hBlank.symm.trans (hAll c (List.mem_append_left _ hMem))
  have hWord (word : List Char) (hFeed : '\n' ∉ word) :
      exactly word (text ++ '\n' :: rest) = exactly word text :=
    (exact_exactly word).munches.append_feed (.eq hFeed) text rest
  have hQuote : one (fun c => decide (c = '"')) (text ++ '\n' :: rest) =
      one (fun c => decide (c = '"')) text := (exact_one _).munches.append_feed (.one rfl) text rest
  simp only [table, List.forall_mem_cons, List.not_mem_nil, false_implies, implies_true, and_true]
  refine ⟨hBlanks, exact_blockComment.append_eq (hWord _ (by decide)) h.comment,
    munches_lineComment.append_feed ((Feedless.eq (by decide)).joined (.allOf rfl)) _ _,
    munches_float.append_feed .floatForm _ _, munches_integer.append_feed .integerForm _ _,
    exact_charLiteral.munches.append_feed .charLiteral _ _,
    exact_stringLiteral.append_eq hQuote h.string,
    munches_word.append_feed ((Feedless.one rfl).joined (.allOf rfl)) _ _, ?_⟩
  and_intros <;> exact hWord _ (by decide)

theorem first?_congr {patterns : List Pattern} {text other : List Char}
    (h : ∀ pattern ∈ patterns, pattern.shape text = pattern.shape other) :
    first? patterns text = first? patterns other := by
  induction patterns with
  | nil => rfl
  | cons pattern patterns ih =>
    obtain ⟨hPattern, hPatterns⟩ := List.forall_mem_cons.mp h
    have hFirst : first? [pattern] text = first? [pattern] other := by simp [first?, hPattern]
    rw [← List.singleton_append, first?_append, first?_append, hFirst, ih hPatterns]

theorem first?_append_feed {text : List Char} (h : Sealed text) (rest : List Char) :
    first? table (text ++ '\n' :: rest) = first? table text :=
  first?_congr (table_append_feed h rest)

/-- Of patterns of which all but one do not match a text, the one decides. -/
theorem first?_around {before after : List Pattern} (pattern : Pattern) {text : List Char}
    (hBefore : first? before text = none) (hAfter : first? after text = none) :
    first? (before ++ pattern :: after) text = (pattern.shape text).map (·, pattern.role) := by
  rw [first?_append, hBefore, Option.none_or, ← List.singleton_append, first?_append, hAfter,
    Option.or_none]
  cases h : pattern.shape text <;> simp [first?, h]

/-- Nothing but a string begins with a double quote. -/
theorem first?_quote (text : List Char) :
    first? table ('"' :: text) = (stringLiteral ('"' :: text)).map (·, .quoted .string) := by
  have hTable : table = table.take 6 ++ ⟨stringLiteral, .quoted .string⟩ :: table.drop 7 := rfl
  rw [hTable]
  exact first?_around _ rfl rfl

/-- A comment without an end gives a slash. -/
theorem first?_open {text : List Char} (h : blockComment ('/' :: '*' :: text) = none) :
    first? table ('/' :: '*' :: text) = some (1, .plain .slash) := by
  refine first?_table (k := 28) rfl ?_ rfl
  have hTable : table.take 28 =
      table.take 1 ++ ⟨blockComment, .gap⟩ :: (table.take 28).drop 2 := rfl
  rw [hTable, first?_around _ rfl rfl]
  exact congrArg (Option.map _) h

end Pattern

/-! ## Tokens before a line feed -/

/-- Nowhere a star right after a slash, as a comment without an end gives them. -/
def CommentsClosed (tokens : List Token) : Prop :=
  tokens.IsChain fun a b => a.kind = .slash → b.kind = .star → a.stop ≠ b.start

instance : DecidablePred CommentsClosed := fun _ => inferInstanceAs (Decidable (List.IsChain _ _))

theorem scan_open {mark : Mark} {text : List Char} {tokens : List Token}
    (hOpen : blockComment ('/' :: '*' :: text) = none)
    (hScan : scan 0 mark ('/' :: '*' :: text) = .ok tokens) : ¬ CommentsClosed tokens := by
  have hSlash : scan 0 mark (['/'] ++ '*' :: text) = _ :=
    scan_of_first? mark (List.cons_ne_nil _ _) (Pattern.first?_open hOpen)
  have hStar : scan 0 (mark.advance ['/']) (['*'] ++ text) = _ :=
    scan_of_first? _ (List.cons_ne_nil _ _) (rfl : _ = some (1, Role.plain .star))
  rw [List.singleton_append] at hSlash hStar
  rw [hSlash, hStar] at hScan
  cases hRest : scan 0 ((mark.advance ['/']).advance ['*']) text with
  | error fault =>
    rw [hRest] at hScan
    cases hScan
  | ok others =>
    rw [hRest] at hScan
    cases hScan
    intro hClosed
    exact (List.isChain_cons_cons.mp hClosed).1 rfl rfl rfl

theorem sealed_of_scan {mark : Mark} {text : List Char} {tokens : List Token}
    (hScan : scan 0 mark text = .ok tokens) (hClosed : CommentsClosed tokens)
    (hVisible : ∃ c ∈ text, isBlank c = false) : Sealed text := by
  refine ⟨hVisible, ?_, ?_⟩
  · intro hOpen hNone
    obtain ⟨n, hSome⟩ := Option.ne_none_iff_exists'.mp hOpen
    obtain ⟨piece, rest, rfl, -, rfl⟩ := (exact_exactly _).takes hSome
    exact scan_open hNone hScan hClosed
  · intro hOpen hNone
    obtain ⟨n, hSome⟩ := Option.ne_none_iff_exists'.mp hOpen
    obtain ⟨piece, rest, rfl, -, c, rfl, hQuote⟩ := (exact_one _).takes hSome
    obtain rfl : c = '"' := of_decide_eq_true hQuote
    rw [List.singleton_append] at hNone hScan
    rw [scan, Pattern.first?_quote, hNone] at hScan
    cases hScan

/-- Blanks before a line feed give no tokens, and none with the line feed. -/
theorem scan_append_feed_of_blank {mark : Mark} {text : List Char} {tokens : List Token}
    (hScan : scan 0 mark text = .ok tokens) (hBlank : ∀ c ∈ text, isBlank c = true)
    (rest : List Char) :
    scan 0 mark (text ++ '\n' :: rest) =
      (scan 0 (mark.advance (text ++ ['\n'])) rest).map (tokens.dropLast ++ ·) := by
  have hTokens := scan_blanks hBlank mark []
  rw [List.append_nil, hScan] at hTokens
  cases hTokens
  have hFeed : ∀ c ∈ text ++ ['\n'], isBlank c = true :=
    List.forall_mem_append.mpr ⟨hBlank, List.forall_mem_singleton.mpr rfl⟩
  rw [List.append_cons, scan_blanks hFeed]
  cases scan 0 (mark.advance (text ++ ['\n'])) rest <;> rfl

/-- The tokens of a text stay what they are if a line feed and another text follow, and the tokens
of that text come after them. -/
theorem scan_append_feed {mark : Mark} {text : List Char} {tokens : List Token}
    (hScan : scan 0 mark text = .ok tokens) (hClosed : CommentsClosed tokens) (rest : List Char) :
    scan 0 mark (text ++ '\n' :: rest) =
      (scan 0 (mark.advance (text ++ ['\n'])) rest).map (tokens.dropLast ++ ·) := by
  generalize hLength : text.length = length
  induction length using Nat.strongRecOn generalizing mark text tokens with
  | ind length ih =>
    by_cases hBlank : ∀ c ∈ text, isBlank c = true
    · exact scan_append_feed_of_blank hScan hBlank rest
    · have hVisible : ∃ c ∈ text, isBlank c = false := by simpa using hBlank
      have hSealed := sealed_of_scan hScan hClosed hVisible
      rcases scan_eq_ok_cases hScan with
        ⟨rfl, rfl⟩ | ⟨piece, after, role, others, rfl, hFits, hFirst, hAfter, rfl⟩
      · exact absurd (List.forall_mem_nil _) hBlank
      · have hPos := List.length_pos_iff.mpr hFits.ne_nil
        rw [List.length_append] at hLength
        have hOthers := ih after.length (by omega) hAfter hClosed.right_of_append rfl
        have hNe : others ≠ [] := by
          obtain ⟨front, rfl, -⟩ := (laid_of_scan hAfter).exists_last
          simp
        rw [← Pattern.first?_append_feed hSealed rest, List.append_assoc] at hFirst
        rw [List.append_assoc, scan_of_first? mark hFits.ne_nil hFirst, hOthers,
          List.append_assoc piece after ['\n'], Mark.advance_append mark piece,
          List.dropLast_append_of_ne_nil hNe]
        cases scan 0 ((mark.advance piece).advance (after ++ ['\n'])) rest with
        | error fault => rfl
        | ok later => exact congrArg Except.ok (List.append_assoc _ _ _).symm

/-! ## Sources -/

theorem toNat_add_toUInt32 {word : UInt32} {n : Nat} (h : word.toNat + n < UInt32.size) :
    (word + n.toUInt32).toNat = word.toNat + n := by
  have hWord : n.toUInt32.toNat = n := UInt32.toNat_ofNat_of_lt' (by omega)
  rw [UInt32.toNat_add, hWord]
  exact Nat.mod_eq_of_lt h

/-- No token stands on a line after as many line feeds as its source has bytes, but for the last. -/
theorem line_le_of_mem_tokenize {source : String} {tokens : List Token}
    (hSize : byteLength source.toList < UInt32.size) (hTokens : tokenize source = .ok tokens)
    {token : Token} (hMem : token ∈ tokens) :
    token.line.toNat ≤ byteLength source.toList + if token.kind = .eof then 1 else 0 := by
  by_cases hKind : token.kind = .eof
  · have hCount := count_le_byteLength '\n' source.toList
    have hLine : token.line.toNat ≤ 1 + source.toList.count '\n' := by
      rw [eq_endAt_of_tokenize hTokens hMem hKind]
      exact Mark.toNat_line_le _
    rw [if_pos hKind]
    omega
  · obtain ⟨before, part, rest, hSource, hWritten, -, hLine⟩ :=
      exists_text_of_tokenize hSize hTokens hMem hKind
    have hCount := count_le_byteLength '\n' before
    have hPart := byteLength_pos hWritten.ne_nil
    rw [hLine, hSource, byteLength_append, byteLength_append, if_neg hKind]
    omega

theorem span_moved {token : Token} {bytes : Nat} (feeds : Nat)
    (hStart : token.span.1 + bytes < UInt32.size) (hStop : token.span.2 + bytes < UInt32.size) :
    (token.moved bytes feeds).span = (token.span.1 + bytes, token.span.2 + bytes) := by
  have hStart' : (token.start + bytes.toUInt32).toNat = token.span.1 + bytes :=
    toNat_add_toUInt32 hStart
  have hStop' : (token.stop + bytes.toUInt32).toNat = token.span.2 + bytes :=
    toNat_add_toUInt32 hStop
  rw [← hStart', ← hStop']
  rfl

theorem tokenize_append_eq {first : String} {tokens : List Token}
    (hTokens : tokenize first = .ok tokens) (hClosed : CommentsClosed tokens) (second : String) :
    tokenize (first ++ "\n" ++ second) =
      (movedResult (byteLength first.toList + 1) (first.toList.count '\n' + 1)
        (tokenize second)).map (tokens.dropLast ++ ·) := by
  have hText : (first ++ "\n" ++ second).toList = first.toList ++ '\n' :: second.toList := by
    simp [String.toList_append]
  have hBytes : byteLength (first.toList ++ ['\n']) = byteLength first.toList + 1 := by
    rw [byteLength_append]
    rfl
  have hFeeds : (first.toList ++ ['\n']).count '\n' = first.toList.count '\n' + 1 := by
    rw [List.count_append]
    rfl
  rw [tokenize, hText, scan_append_feed hTokens hClosed, Mark.advance_start, hBytes, hFeeds,
    scan_moved]
  rfl

/-- If a source is cut into tokens in which no comment is left open, then a line feed and another
source may follow it: the tokens of the first source but its last are followed by those of the
other source, and the fault of the other source is the fault of both. What belongs to the other
source is moved by the bytes and line feeds before it, and its offsets and lines still fit into
their words, but for the line of the end after so many line feeds. -/
theorem tokenize_append_feed {first second : String} {tokens : List Token}
    (hSize : byteLength (first ++ "\n" ++ second).toList < UInt32.size)
    (hTokens : tokenize first = .ok tokens) (hClosed : CommentsClosed tokens) :
    let bytes := byteLength first.toList + 1
    let feeds := first.toList.count '\n' + 1
    ∃ front last, tokens = front ++ [last] ∧ last.kind = .eof ∧
      (∀ token ∈ front, token.kind ≠ .eof) ∧
      (∀ later, tokenize second = .ok later →
        tokenize (first ++ "\n" ++ second) = .ok (front ++ later.map (moved bytes feeds)) ∧
          ∀ token ∈ later,
            (token.moved bytes feeds).span = (token.span.1 + bytes, token.span.2 + bytes) ∧
              ((token.kind = .eof → byteLength (first ++ "\n" ++ second).toList + 1 < UInt32.size) →
                (token.moved bytes feeds).line.toNat = token.line.toNat + feeds)) ∧
      ∀ fault, tokenize second = .error fault →
        tokenize (first ++ "\n" ++ second) = .error (fault.moved bytes) ∧
          (fault.moved bytes).offset.toNat = fault.offset.toNat + bytes := by
  intro bytes feeds
  have hJoined : byteLength (first ++ "\n" ++ second).toList =
      bytes + byteLength second.toList := by
    simp only [String.toList_append, byteLength_append]
    rfl
  have hFeeds : feeds ≤ bytes := Nat.add_le_add_right (count_le_byteLength _ _) 1
  have hSecond : byteLength second.toList < UInt32.size := by omega
  have hEq := tokenize_append_eq hTokens hClosed second
  obtain ⟨front, rfl, hFront⟩ := (laid_of_scan hTokens).exists_last
  rw [List.dropLast_concat] at hEq
  refine ⟨front, _, rfl, rfl, hFront, ?_, ?_⟩
  · intro later hLater
    rw [hLater] at hEq
    refine ⟨hEq, ?_⟩
    intro token hMem
    obtain ⟨hStart, hStop⟩ := span_le_of_mem_tokenize hSecond hLater hMem
    refine ⟨span_moved feeds (by omega) (by omega), ?_⟩
    intro hEnd
    have hLine := line_le_of_mem_tokenize hSecond hLater hMem
    apply toNat_add_toUInt32
    by_cases hKind : token.kind = .eof
    · have hLess := hEnd hKind
      rw [if_pos hKind] at hLine
      omega
    · rw [if_neg hKind] at hLine
      omega
  · intro fault hFault
    rw [hFault] at hEq
    refine ⟨hEq, ?_⟩
    obtain ⟨before, c, rest, hSource, hOffset, -⟩ := exists_stopsAt_of_tokenize hSecond hFault
    have hLe := byteLength_le_of_isPrefix ⟨c :: rest, hSource.symm⟩
    exact toNat_add_toUInt32 (by omega)

/-- The first source ends in a comment, which the line feed ends, and has a star not right after a
slash. The word comes after it, and so does the letter that no pattern matches. -/
theorem tokenize_append_feed_comment :
    let first := "x / *\n// end"
    let front : List Token :=
      [⟨.identifier, "x", 0, 1, 1⟩, ⟨.slash, "/", 2, 3, 1⟩, ⟨.star, "*", 4, 5, 1⟩]
    let last := endAt 12 2
    let later : List Token := [⟨.identifier, "y", 0, 1, 1⟩, endAt 1 1]
    byteLength (first ++ "\n" ++ "y").toList < UInt32.size ∧
      tokenize first = .ok (front ++ [last]) ∧ CommentsClosed (front ++ [last]) ∧
      tokenize "y" = .ok later ∧
      tokenize (first ++ "\n" ++ "y") = .ok (front ++ later.map (moved 13 2)) ∧
      later.map (span ∘ moved 13 2) = [(13, 14), (14, 14)] ∧
      tokenize "y é" = .error ⟨.unrecognised "é", 2⟩ ∧
      tokenize (first ++ "\n" ++ "y é") = .error ⟨.unrecognised "é", 15⟩ := by
  intro first front last later
  have hTokens : tokenize first = .ok (front ++ [last]) := by decide
  have hClosed : CommentsClosed (front ++ [last]) := by decide
  have hSize : byteLength (first ++ "\n" ++ "y").toList < UInt32.size := by decide
  have hLater : tokenize "y" = .ok later := by decide
  have hFault : tokenize "y é" = .error ⟨.unrecognised "é", 2⟩ := by decide
  have hSize' : byteLength (first ++ "\n" ++ "y é").toList < UInt32.size := by decide
  have hBytes : byteLength first.toList + 1 = 13 := by decide
  have hFeeds : first.toList.count '\n' + 1 = 2 := by decide
  obtain ⟨front', last', hSplit, -, -, hOk, -⟩ := tokenize_append_feed hSize hTokens hClosed
  obtain ⟨-, -, -, -, -, -, hError⟩ := tokenize_append_feed hSize' hTokens hClosed
  obtain ⟨rfl, -⟩ := List.append_inj' hSplit rfl
  rw [hBytes, hFeeds] at hOk
  rw [hBytes] at hError
  exact ⟨hSize, hTokens, hClosed, hLater, (hOk later hLater).1, by decide, hFault,
    (hError _ hFault).1⟩

end Token

end Jingle
