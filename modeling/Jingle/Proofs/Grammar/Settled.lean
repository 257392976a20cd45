import Jingle.Proofs.Grammar.Statement

/-!
# Where reading stops

A reader that stops blames one token. The tokens before that token could have been continued to
something that the grammar makes, and the reader stops in the same way wherever it meets these
tokens, the one that it blames and the next one. A reader that succeeds depends on the tokens that
it passes and on the one after them. More steps change none of this.

* `Begins rule tokens` says that tokens can be continued to something that a rule makes.
* `Settles r r' viable c` says that a reader `r` goes on or stops at a cursor for good, and that
  `r'` does the same wherever it meets the same tokens.
* `Reader.parenthesised_settles` says it of lists with commas.
-/

namespace Jingle.Grammar

open Token (Kind)

/-! ## Beginnings -/

/-- The tokens can be continued to something that the rule makes, with no end among the tokens that
are added. -/
def Begins {α : Type} (rule : List Token → α → Prop) (tokens : List Token) : Prop :=
  ∃ more a, (∀ token ∈ more, token.kind ≠ .eof) ∧ rule (tokens ++ more) a

theorem Begins.of_eq {α : Type} {rule : List Token → α → Prop} {tokens more whole : List Token}
    {a : α} (h : rule whole a) (hMore : ∀ token ∈ more, token.kind ≠ .eof)
    (hWhole : whole = tokens ++ more) : Begins rule tokens :=
  ⟨more, a, hMore, hWhole ▸ h⟩

/-- A beginning of a part is, after what comes before the part, a beginning of the whole. -/
theorem Begins.within {α β : Type} {rule : List Token → α → Prop} {rule' : List Token → β → Prop}
    {tokens : List Token} (h : Begins rule tokens) (front : List Token) {back : List Token}
    (hBack : ∀ token ∈ back, token.kind ≠ .eof)
    (hWhole : ∀ {part : List Token} {a : α}, rule part a → ∃ b, rule' (front ++ (part ++ back)) b) :
    Begins rule' (front ++ tokens) := by
  obtain ⟨more, a, hMore, hPart⟩ := h
  obtain ⟨b, hRule⟩ := hWhole hPart
  refine .of_eq hRule (List.forall_mem_append.mpr ⟨hMore, hBack⟩) ?_
  simp only [List.append_assoc]

/-- Some token of a kind. -/
def sample (kind : Kind) : Token :=
  ⟨kind, "", 0, 0, 0⟩

namespace Cursor

/-! ## Cursors on the same tokens -/

theorem Passes.unique {c c' : Cursor} {first second : List Token} (h : c.Passes first c')
    (h' : c.Passes second c') : first = second :=
  List.append_cancel_right (h.1.symm.trans h'.1)

theorem Passes.length_eq {c c' : Cursor} {passed : List Token} (h : c.Passes passed c') :
    c.rest.length = passed.length + c'.rest.length := by
  have hLength := congrArg List.length h.1
  simp only [tokens, List.length_append, List.length_cons] at hLength
  omega

/-- Past a token that is not an end, there is an end still before the cursor and one token less. -/
theorem Ends.advance {c : Cursor} (h : c.Ends) (hKind : c.kind ≠ .eof) :
    c.advance.Ends ∧ c.rest.length = c.advance.rest.length + 1 := by
  have hStep := passes_advance h hKind
  have hLength := hStep.length_eq
  rw [List.length_singleton] at hLength
  exact ⟨hStep.ends h, by omega⟩

/-- Two cursors that pass the same tokens and come to the same token were on the same token. -/
theorem Passes.current_eq {c c' d d' : Cursor} {passed : List Token} (h : c.Passes passed c')
    (h' : d.Passes passed d') (hCurrent : d'.current = c'.current) : d.current = c.current := by
  cases passed with
  | nil =>
    obtain rfl := h.nil
    obtain rfl := h'.nil
    exact hCurrent
  | cons token passed => rw [h.uncons.1, h'.uncons.1]

/-- The token under a cursor and the next one, if there is one, are also under another cursor. -/
def Heralds (c d : Cursor) : Prop :=
  c.tokens.take 2 <+: d.tokens

theorem Heralds.current_eq {c d : Cursor} (h : c.Heralds d) : d.current = c.current := by
  obtain ⟨more, hTokens⟩ := h
  simp only [tokens, List.take_succ_cons, List.cons_append, List.cons.injEq] at hTokens
  exact hTokens.1.symm

theorem Heralds.kind_eq {c d : Cursor} (h : c.Heralds d) : d.kind = c.kind :=
  congrArg Token.kind h.current_eq

/-- With an end before it a cursor that is not on the end has a next token. -/
theorem Heralds.nextKind_eq {c d : Cursor} (h : c.Heralds d) (hEnds : c.Ends)
    (hKind : c.kind ≠ .eof) : d.nextKind = c.nextKind := by
  have hStep := (passes_advance hEnds hKind).1
  obtain ⟨more, hTokens⟩ := h
  rw [hStep] at hTokens
  obtain ⟨current, rest⟩ := d
  simp only [tokens, List.cons_append, List.nil_append, List.take_succ_cons, List.take_zero,
    List.cons.injEq] at hTokens
  obtain ⟨-, rfl⟩ := hTokens
  rfl

end Cursor

open Reader

/-! ## Readers that settle -/

section Settles

variable {α β : Type}

/-- The result of a reader at a cursor is for good: it depends only on the tokens that were passed
and on the next one, or it blames the first token that does not fit and depends on one token
more. -/
inductive Settled (r' : Reader α) (viable : List Token → Prop) (c : Cursor) :
    EStateM.Result Fault Cursor α → Prop where
  | ok {a : α} {passed : List Token} {c' : Cursor} : c.Passes passed c' →
      (∀ {d d' : Cursor}, d.Passes passed d' → d'.current = c'.current → r' d = .ok a d') →
      Settled r' viable c (.ok a c')
  | error {fault : Fault} {passed : List Token} {stop c' : Cursor} : c.Passes passed stop →
      fault.offset = stop.current.start → viable passed →
      (∀ {d stop' : Cursor}, d.Passes passed stop' → stop.Heralds stop' →
        ∃ d', r' d = .error fault d') →
      Settled r' viable c (.error fault c')

/-- The reader `r` settles at the cursor: where it stops, the tokens before the one that it blames
are viable, and `r'` does the same on the same tokens. -/
def Settles (r r' : Reader α) (viable : List Token → Prop) (c : Cursor) : Prop :=
  Settled r' viable c (r c)

variable {viable : List Token → Prop} {c : Cursor}

theorem Settles.imp {r r' : Reader α} {viable' : List Token → Prop} (h : Settles r r' viable' c)
    (hViable : ∀ {tokens : List Token}, viable' tokens → viable tokens) :
    Settles r r' viable c := by
  unfold Settles at h ⊢
  generalize r c = result at h ⊢
  cases h with
  | ok hPassed hSame => exact .ok hPassed hSame
  | error hPassed hOffset hBefore hSame => exact .error hPassed hOffset (hViable hBefore) hSame

/-- If `r'` stops where `r` settles, then `r` has stopped with the same fault. -/
theorem Settles.eq_error {r r' : Reader α} {fault : Fault} {c' : Cursor} (h : Settles r r' viable c)
    (hRead : r' c = .error fault c') : ∃ c', r c = .error fault c' := by
  unfold Settles at h
  generalize r c = result at h ⊢
  cases h with
  | ok hPassed hSame => cases hRead.symm.trans (hSame hPassed rfl)
  | error hPassed _ _ hSame =>
    obtain ⟨d, hError⟩ := hSame hPassed (List.take_prefix _ _)
    cases hRead.symm.trans hError
    exact ⟨_, rfl⟩

theorem settles_pure (a : α) : Settles (pure a) (pure a) viable c :=
  .ok (.refl c) fun hPassed _ => by rw [hPassed.nil]; rfl

/-- A reader that stops at the token under the cursor. -/
theorem settles_stop {r r' : Reader α} {fault : Fault} {c' : Cursor}
    (hRead : r c = .error fault c') (hOffset : fault.offset = c.current.start)
    (hViable : viable []) (hSame : ∀ {d : Cursor}, c.Heralds d → ∃ d', r' d = .error fault d') :
    Settles r r' viable c := by
  rw [Settles, hRead]
  refine .error (.refl c) hOffset hViable ?_
  intro d stop' hPassed hHeralds
  obtain rfl := hPassed.nil
  exact hSame hHeralds

theorem settles_failFor (message : String) (hViable : viable []) :
    Settles (failFor message : Reader α) (failFor message) viable c := by
  refine settles_stop rfl rfl hViable ?_
  intro d hHeralds
  refine ⟨d, ?_⟩
  rw [failFor, Cursor.unexpectedFor, Cursor.unexpectedFor, hHeralds.current_eq]

theorem bind_of_eq_error {r : Reader α} {f : α → Reader β} {c' : Cursor} {fault : Fault}
    (h : r c = .error fault c') : (r >>= f) c = .error fault c' := by
  simp only [bind, EStateM.bind, h]

/-- What is read first settles, and what is read after it settles where the first reader leaves the
cursor. -/
theorem Settles.bind {r r' : Reader α} {f f' : α → Reader β} {viable' : List Token → Prop}
    (hReader : Settles r r' viable' c)
    (hViable : ∀ {tokens : List Token}, viable' tokens → viable tokens)
    (hRest : ∀ {a : α} {c' : Cursor}, r c = .ok a c' → ∃ passed, c.Passes passed c' ∧
      Settles (f a) (f' a) (fun more => viable (passed ++ more)) c') :
    Settles (r >>= f) (r' >>= f') viable c := by
  unfold Settles at hReader
  cases hRead : r c with
  | error fault c' =>
    rw [hRead] at hReader
    rw [Settles, bind_of_eq_error hRead]
    cases hReader with
    | error hPassed hOffset hBefore hSame =>
      refine .error hPassed hOffset (hViable hBefore) ?_
      intro d stop' hPassed' hHeralds
      obtain ⟨d', hStop⟩ := hSame hPassed' hHeralds
      exact ⟨d', bind_of_eq_error hStop⟩
  | ok a c' =>
    obtain ⟨passed, hPassed, hNext⟩ := hRest hRead
    rw [hRead] at hReader
    rw [Settles, bind_of_eq_ok hRead]
    unfold Settles at hNext
    cases hReader with
    | ok hFirst hSame =>
      obtain rfl := hFirst.unique hPassed
      generalize f a c' = result at hNext ⊢
      cases hNext with
      | ok hSecond hSame' =>
        refine .ok (hPassed.append hSecond) ?_
        intro d d'' hBoth hCurrent
        -- What is passed second, or the token after it, is what the first reader comes to.
        obtain ⟨d', hFirst', hSecond'⟩ := hBoth.split
        rw [bind_of_eq_ok (hSame hFirst' (hSecond.current_eq hSecond' hCurrent))]
        exact hSame' hSecond' hCurrent
      | error hSecond hOffset hBefore hSame' =>
        refine .error (hPassed.append hSecond) hOffset hBefore ?_
        intro d stop' hBoth hHeralds
        obtain ⟨d', hFirst', hSecond'⟩ := hBoth.split
        rw [bind_of_eq_ok (hSame hFirst' (hSecond.current_eq hSecond' hHeralds.current_eq))]
        exact hSame' hSecond' hHeralds

/-- A reader whose result is only made into something else. -/
theorem Settles.bind_pure {r r' : Reader α} {viable' : List Token → Prop}
    (hReader : Settles r r' viable' c)
    (hViable : ∀ {tokens : List Token}, viable' tokens → viable tokens) (g : α → β) :
    Settles (do let a ← r; pure (g a)) (do let a ← r'; pure (g a)) viable c := by
  refine hReader.bind hViable ?_
  intro a c' hRead
  unfold Settles at hReader
  rw [hRead] at hReader
  cases hReader with
  | ok hPassed _ => exact ⟨_, hPassed, settles_pure _⟩

theorem settles_kind {f f' : Kind → Reader α} (h : Settles (f c.kind) (f' c.kind) viable c) :
    Settles (kind >>= f) (kind >>= f') viable c := by
  refine Settles.bind (.ok (.refl c) ?_ : Settles kind kind (fun _ => False) c) False.elim ?_
  · intro d d' hPassed hCurrent
    obtain rfl := hPassed.nil
    exact kind_eq_ok.mpr ⟨congrArg Token.kind hCurrent, rfl⟩
  · intro k c' hRead
    obtain ⟨rfl, rfl⟩ := kind_eq_ok.mp hRead
    exact ⟨[], .refl c, h⟩

/-- A look at the kind of the token under the cursor decides what is read. -/
theorem settles_ite {k : Kind} {r r' s s' : Reader α}
    (hThen : c.kind = k → Settles r r' viable c) (hElse : c.kind ≠ k → Settles s s' viable c) :
    Settles (do if (← kind) = k then r else s) (do if (← kind) = k then r' else s') viable c := by
  apply settles_kind
  by_cases hKind : c.kind = k
  · rw [if_pos hKind, if_pos hKind]
    exact hThen hKind
  · rw [if_neg hKind, if_neg hKind]
    exact hElse hKind

theorem settles_next {f f' : Token → Reader α} (hEnds : c.Ends) (hKind : c.kind ≠ .eof)
    (h : c.advance.Ends → c.rest.length = c.advance.rest.length + 1 →
      Settles (f c.current) (f' c.current) (fun more => viable (c.current :: more)) c.advance) :
    Settles (next >>= f) (next >>= f') viable c := by
  obtain ⟨hEnds', hLength⟩ := hEnds.advance hKind
  have hStep := Cursor.passes_advance hEnds hKind
  refine Settles.bind (.ok hStep ?_ : Settles next next (fun _ => False) c) False.elim ?_
  · intro d d' hPassed _
    obtain ⟨hCurrent, -, hRest⟩ := hPassed.uncons
    exact next_eq_ok.mpr ⟨hCurrent, hRest.nil⟩
  · intro token c' hRead
    obtain ⟨rfl, rfl⟩ := next_eq_ok.mp hRead
    exact ⟨[c.current], hStep, h hEnds' hLength⟩

section Expect

variable {k : Kind} {f f' : Token → Reader α} (hEnds : c.Ends) (hEof : k ≠ .eof)
  (hViable : viable [])
  (h : c.kind = k → c.advance.Ends → c.rest.length = c.advance.rest.length + 1 →
    Settles (f c.current) (f' c.current) (fun more => viable (c.current :: more)) c.advance)

include hEnds hEof hViable h

theorem settles_expectOr (fault : Cursor → Fault) (cause : Token → Fault.Cause)
    (hFault : ∀ d, fault d = ⟨cause d.current, d.current.start⟩) :
    Settles (expectOr k fault >>= f) (expectOr k fault >>= f') viable c := by
  by_cases hKind : c.kind = k
  · have hStep := Cursor.passes_advance hEnds (by rwa [hKind])
    obtain ⟨hEnds', hLength⟩ := hEnds.advance (by rwa [hKind])
    have hFirst : Settles (expectOr k fault) (expectOr k fault) (fun _ => False) c := by
      rw [Settles, expectOr, if_pos hKind]
      refine .ok hStep ?_
      intro d d' hPassed _
      obtain ⟨hCurrent, -, hRest⟩ := hPassed.uncons
      rw [expectOr, if_pos (hPassed.kind_eq.trans hKind), hCurrent, hRest.nil]
    refine hFirst.bind False.elim ?_
    intro token c' hRead
    rw [expectOr, if_pos hKind] at hRead
    cases hRead
    exact ⟨[c.current], hStep, h hKind hEnds' hLength⟩
  · have hStop {g : Token → Reader α} {d : Cursor} (hHeralds : c.Heralds d) :
        (expectOr k fault >>= g) d = .error (fault c) d := by
      apply bind_of_eq_error
      rw [expectOr, if_neg (by rwa [hHeralds.kind_eq]), hFault, hFault, hHeralds.current_eq]
    refine settles_stop (hStop (List.take_prefix _ _)) ?_ hViable ?_
    · rw [hFault]
    · exact fun hHeralds => ⟨_, hStop hHeralds⟩

theorem settles_expect : Settles (expect k >>= f) (expect k >>= f') viable c :=
  settles_expectOr hEnds hEof hViable h Cursor.unexpected (.unexpected ·.value) fun _ => rfl

theorem settles_expectFor (message : String) :
    Settles (expectFor k message >>= f) (expectFor k message >>= f') viable c :=
  settles_expectOr hEnds hEof hViable h (·.unexpectedFor message) (.unexpectedFor ·.value message)
    fun _ => rfl

end Expect

/-- A last token of a kind. -/
theorem settles_expect_pure {k : Kind} (hEnds : c.Ends) (hEof : k ≠ .eof) (hViable : viable [])
    (a : α) :
    Settles (do let _ ← expect k; pure a) (do let _ ← expect k; pure a) viable c :=
  settles_expect hEnds hEof hViable fun _ _ _ => settles_pure a

/-- A part and a last token of a kind. With what has been read before the part they make the
whole. -/
theorem Settles.closed {r r' : Reader α} {rule : List Token → α → Prop}
    {rule' : List Token → β → Prop} {k : Kind} (hReader : Settles r r' (Begins rule) c)
    (hSound : Sound r rule) (hEnds : c.Ends) (hEof : k ≠ .eof) (front : List Token) {g : α → β}
    (hWhole : ∀ {tokens : List Token} {a : α} {last : Token}, rule tokens a → last.kind = k →
      rule' (front ++ (tokens ++ [last])) (g a)) :
    Settles (do let a ← r; let _ ← expect k; pure (g a))
      (do let a ← r'; let _ ← expect k; pure (g a)) (fun more => Begins rule' (front ++ more))
      c := by
  have hLast : ∀ token ∈ [sample k], token.kind ≠ .eof := List.forall_mem_singleton.mpr hEof
  refine hReader.bind ?_ ?_
  · intro tokens hBegins
    exact hBegins.within front hLast fun hPart => ⟨_, hWhole hPart rfl⟩
  · intro a c' hRead
    obtain ⟨tokens, hTokens, hPart⟩ := hSound hEnds hRead
    refine ⟨tokens, hTokens, settles_expect_pure (hTokens.ends hEnds) hEof ?_ (g a)⟩
    refine .of_eq (hWhole hPart (rfl : (sample k).kind = k)) hLast ?_
    rw [List.append_nil, List.append_assoc]

end Settles

namespace Reader

/-! ## Lists with commas -/

variable {α : Type} {item item' : Reader α} {rule : List Token → α → Prop} {bound : Nat}
  (hSound : Sound item rule)
  (hItem : ∀ {c : Cursor}, c.Ends → c.rest.length < bound → Settles item item' (Begins rule) c)

include hSound hItem

theorem commaSeparated_settles {steps steps' : Nat} (hLe : steps ≤ steps') {c : Cursor}
    (hEnds : c.Ends) (hBound : c.rest.length < bound) (hSteps : c.rest.length < steps) :
    Settles (commaSeparated item steps) (commaSeparated item' steps') (Begins (Separated rule))
      c := by
  induction steps generalizing steps' c with
  | zero => omega
  | succ steps ih =>
    obtain ⟨steps', rfl⟩ : ∃ n, steps' = n + 1 := ⟨steps' - 1, by omega⟩
    refine (hItem hEnds hBound).bind ?_ ?_
    · rintro tokens ⟨more, a, hMore, hRule⟩
      exact ⟨more, [a], hMore, .last hRule⟩
    · intro a c₁ hRead
      obtain ⟨passed, hPassed, hRule⟩ := hSound hEnds hRead
      have hEnds₁ := hPassed.ends hEnds
      have hLength := hPassed.length_eq
      refine ⟨passed, hPassed, settles_ite (fun hComma => ?_) fun _ => settles_pure _⟩
      refine settles_next hEnds₁ (by rw [hComma]; decide) fun hEnds₂ hLength₁ => ?_
      refine (ih (by omega) hEnds₂ (by omega) (by omega)).bind_pure ?_ _
      rintro tokens ⟨more, as, hMore, hRules⟩
      refine .of_eq (.more hRule hComma hRules) hMore ?_
      rw [List.append_assoc, List.cons_append]

theorem parenthesised_settles {steps steps' : Nat} (hLe : steps ≤ steps') {c : Cursor}
    (hEnds : c.Ends) (hBound : c.rest.length ≤ bound) (hSteps : c.rest.length ≤ steps) :
    Settles (parenthesised item steps) (parenthesised item' steps') (Begins (Parenthesised rule))
      c := by
  refine settles_expect hEnds (by decide) ?_ fun hOpen hEnds₁ hLength => ?_
  · exact ⟨[sample .openParen, sample .closeParen], [], by decide, .none rfl rfl⟩
  refine settles_ite (fun _ => ?_) fun _ => ?_
  · refine settles_expect_pure hEnds₁ (by decide) ?_ []
    exact ⟨[sample .closeParen], [], by decide, .none hOpen rfl⟩
  · have hItems := commaSeparated_settles hSound hItem hLe hEnds₁ (by omega) (by omega)
    exact hItems.closed (commaSeparated_sound hSound steps) hEnds₁ (by decide) [c.current]
      fun hRules hClose => .some hOpen hRules hClose

end Reader

end Jingle.Grammar
