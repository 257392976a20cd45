import Jingle.Proofs.Grammar.Viable

/-!
# Nothing after an end is read

A list of tokens may go on after a token that marks an end. Readers that settle look at the tokens
that they pass, at the one where they stop and at the next one, and an end is never passed. So the
tokens after it make no difference, neither to the tree nor to the fault.

* `Settles.agrees_of_prefix` compares the two runs of a reader that settles on a list and on a
  longer one.
* `Block.ofTokens_take_first` says that a list of tokens is read as its tokens up to the first end.
-/

namespace Jingle.Grammar

/-! ## Lists that go on -/

namespace Cursor

/-- On a list that goes on a cursor passes the same tokens, and comes to the same token with the
same tokens after it. -/
theorem Passes.of_prefix {c d stop : Cursor} {passed : List Token} (h : c.Passes passed stop)
    (hPrefix : c.tokens <+: d.tokens) :
    ∃ stop', d.Passes passed stop' ∧ stop.tokens <+: stop'.tokens := by
  obtain ⟨more, hTokens⟩ := hPrefix
  refine ⟨⟨stop.current, stop.rest ++ more⟩, ⟨?_, h.2⟩, more, rfl⟩
  rw [← hTokens, h.1, List.append_assoc]
  rfl

theorem heralds_of_prefix {c d : Cursor} (h : c.tokens <+: d.tokens) : c.Heralds d :=
  (List.take_prefix 2 c.tokens).trans h

/-- A list with an end at its end is left as it is. -/
theorem tokens_ofTokens_of_eof {tokens : List Token} {k : Nat} {last : Token}
    (hIndex : tokens[k]? = some last) (hLast : last.kind = .eof) :
    (ofTokens (tokens.take (k + 1))).tokens = tokens.take (k + 1) := by
  rw [List.take_add_one, hIndex]
  exact tokens_ofTokens hLast

end Cursor

/-- What two runs of readers come to is the same: the same result or the same fault, wherever the
cursors are left. -/
inductive Agrees {α : Type} :
    EStateM.Result Fault Cursor α → EStateM.Result Fault Cursor α → Prop where
  | ok (a : α) (c d : Cursor) : Agrees (.ok a c) (.ok a d)
  | error (fault : Fault) (c d : Cursor) : Agrees (.error fault c) (.error fault d)

/-- A reader that settles on a list comes to the same on every list that goes on after it. -/
theorem Settles.agrees_of_prefix {α : Type} {r r' : Reader α} {viable : List Token → Prop}
    {c d : Cursor} (h : Settles r r' viable c) (hPrefix : c.tokens <+: d.tokens) :
    Agrees (r c) (r' d) := by
  unfold Settles at h
  generalize r c = result at h ⊢
  cases h with
  | @ok a passed c' hPassed hSame =>
    obtain ⟨d', hPassed', hBegins⟩ := hPassed.of_prefix hPrefix
    rw [hSame hPassed' (Cursor.heralds_of_prefix hBegins).current_eq]
    exact .ok a c' d'
  | @error fault passed stop c' hPassed _ _ hSame =>
    obtain ⟨stop', hPassed', hBegins⟩ := hPassed.of_prefix hPrefix
    obtain ⟨d', hError⟩ := hSame hPassed' (Cursor.heralds_of_prefix hBegins)
    rw [hError]
    exact .error fault c' d'

end Jingle.Grammar

namespace Jingle.Syntax.Block

open Grammar

/-! ## Programs -/

/-- Two lists of tokens are read alike if the tokens before the cursor of one are a beginning of
those before the cursor of the other. -/
theorem ofTokens_of_prefix {tokens other : List Token}
    (h : (Cursor.ofTokens tokens).tokens <+: (Cursor.ofTokens other).tokens) :
    Block.ofTokens other = Block.ofTokens tokens := by
  -- The longer list has the larger budget.
  have hBudget : (Cursor.ofTokens tokens).budget ≤ (Cursor.ofTokens other).budget := by
    have hLength := h.length_le
    simp only [Cursor.tokens, List.length_cons] at hLength
    unfold Cursor.budget
    omega
  have hSettles := readAll_settles hBudget (Cursor.ends_ofTokens tokens)
    (Nat.lt_add_of_pos_right (by decide))
  have hAgrees := hSettles.agrees_of_prefix h
  simp only [Block.ofTokens]
  generalize readAll _ _ (Cursor.ofTokens tokens) = result at hAgrees ⊢
  generalize readAll _ _ (Cursor.ofTokens other) = result' at hAgrees ⊢
  cases hAgrees with
  | ok => rfl
  | error => rfl

/-- The tokens after an end make no difference. -/
theorem ofTokens_append_of_eof {tokens : List Token} {k : Nat} {last : Token}
    (hIndex : tokens[k]? = some last) (hLast : last.kind = .eof) (more : List Token) :
    Block.ofTokens (tokens.take (k + 1) ++ more) = Block.ofTokens (tokens.take (k + 1)) := by
  apply ofTokens_of_prefix
  rw [Cursor.tokens_ofTokens_of_eof hIndex hLast]
  exact (List.prefix_append _ more).trans (Cursor.isPrefix_ofTokens _)

/-- A list of tokens with an end in it is read as its tokens up to the first end, with the same tree
or the same fault, and so is every list that goes on in another way after that end. -/
theorem ofTokens_take_first {tokens : List Token} {k : Nat}
    (hFirst : tokens.findIdx? (·.kind = .eof) = some k) :
    Block.ofTokens tokens = Block.ofTokens (tokens.take (k + 1)) ∧
      ∀ more, Block.ofTokens (tokens.take (k + 1) ++ more) = Block.ofTokens tokens := by
  obtain ⟨hLength, hKind, -⟩ := List.findIdx?_eq_some_iff_getElem.mp hFirst
  have hAfter := ofTokens_append_of_eof (List.getElem?_eq_getElem hLength) (of_decide_eq_true hKind)
  have hWhole : Block.ofTokens tokens = Block.ofTokens (tokens.take (k + 1)) := by
    have hRest := hAfter (tokens.drop (k + 1))
    rwa [List.take_append_drop] at hRest
  exact ⟨hWhole, fun more => (hAfter more).trans hWhole.symm⟩

/-- After the name `x` comes an end, and the assignment that would follow the name is behind it. -/
theorem ofTokens_take_first_name :
    let name : Token := ⟨.identifier, "x", 0, 1, 1⟩
    let last : Token := ⟨.eof, "EOF", 1, 1, 1⟩
    let others : List Token :=
      [⟨.assign, "=", 2, 3, 1⟩, ⟨.integer, "1", 4, 5, 1⟩, ⟨.semicolon, ";", 5, 6, 1⟩, last]
    let fault : Fault := ⟨.unexpectedFor "x" "expected a statement", 0⟩
    (name :: last :: others).findIdx? (·.kind = .eof) = some 1 ∧
      Block.ofTokens (name :: last :: others) = Block.ofTokens [name, last] ∧
      ∀ more, Block.ofTokens (name :: last :: more) = .error fault := by
  intro name last others fault
  have hFirst : (name :: last :: others).findIdx? (·.kind = .eof) = some 1 := rfl
  obtain ⟨hWhole, hMore⟩ := ofTokens_take_first hFirst
  exact ⟨hFirst, hWhole, fun more => (hMore more).trans rfl⟩

end Jingle.Syntax.Block
