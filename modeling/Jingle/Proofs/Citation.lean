import Jingle.Proofs.Grammar.Order
import Jingle.Proofs.Layout
import Jingle.Proofs.Token.Line
import Jingle.Proofs.Token.Seam
import Jingle.Proofs.Typing.Erasure
import Jingle.Proofs.Typing.Visibility

/-!
# Earlier declarations that diagnostics cite

A declaration is refused with the line of an earlier declaration. What is known was declared on the
way, so that the line is that of a node which was come to before, and nodes that were come to before
stand before in the source.

* `Violation.cited?` is the earlier declaration that a broken rule speaks of.
* `Block.exists_cited` finds it among the nodes before the one that is refused.
* `checkSource_cites` says so of the program of a source, and that the line is not a later one.
* `checkSource_cites_later` is about the shortest source whose lines do not fit into their words.
-/

namespace Jingle.Typing

open Syntax

/-! ## Declared names -/

/-- The name was declared at one of the visits, on the given line. -/
def DeclaredAt (visits : List Visit) (i : Identifier) (line : UInt32) : Prop :=
  ∃ visit ∈ visits, visit.node.declared? = some i ∧ visit.node.line = line

theorem DeclaredAt.mono {first second : List Visit} {i : Identifier} {line : UInt32}
    (h : DeclaredAt first i line) (hSubset : first ⊆ second) : DeclaredAt second i line := by
  obtain ⟨visit, hMem, hDeclared⟩ := h
  exact ⟨visit, hSubset hMem, hDeclared⟩

/-- Every name of a scope was declared at one of the visits. -/
def Scope.Recorded (scope : Scope) (visits : List Visit) : Prop :=
  ∀ name symbol, scope.get? name = some symbol → DeclaredAt visits (.name name) symbol.line

/-- Every name of every layer was declared at one of the visits. -/
structure Scopes.Recorded (scopes : Scopes) (visits : List Visit) : Prop where
  globals : scopes.globals.Recorded visits
  function : ∀ scope, scopes.function? = some scope → scope.Recorded visits

variable {visits : List Visit} {scopes : Scopes}

theorem Scope.Recorded.insert {scope : Scope} {symbol : Symbol} (h : scope.Recorded visits)
    (hSymbol : DeclaredAt visits (.name symbol.name) symbol.line) :
    (scope.insert symbol).Recorded visits := by
  intro name found hFound
  rw [Scope.get?_insert] at hFound
  split at hFound
  · next hName =>
    obtain rfl := Option.some.inj hFound
    exact hName ▸ hSymbol
  · exact h name found hFound

namespace Scopes.Recorded

theorem empty : Scopes.empty.Recorded [] := by
  constructor
  · rintro name symbol ⟨⟩
  · rintro scope ⟨⟩

theorem mono (h : scopes.Recorded visits) (more : List Visit) : scopes.Recorded (visits ++ more) :=
  ⟨fun name symbol hFound => (h.globals name symbol hFound).mono (List.subset_append_left ..),
    fun scope hScope name symbol hFound =>
      (h.function scope hScope name symbol hFound).mono (List.subset_append_left ..)⟩

theorem insert {symbol : Symbol} (h : scopes.Recorded visits)
    (hSymbol : DeclaredAt visits (.name symbol.name) symbol.line) :
    (scopes.insert symbol).Recorded visits := by
  obtain ⟨globals, function?⟩ := scopes
  cases function? with
  | none => exact ⟨h.globals.insert hSymbol, fun _ hScope => nomatch hScope⟩
  | some scope =>
    refine ⟨h.globals, ?_⟩
    rintro inner hInner
    obtain rfl := Option.some.inj hInner
    exact (h.function scope rfl).insert hSymbol

theorem resolve? (h : scopes.Recorded visits) {name : String} {symbol : Symbol}
    (hFound : scopes.resolve? name = some symbol) : DeclaredAt visits (.name name) symbol.line := by
  unfold Scopes.resolve? at hFound
  rcases Option.or_eq_some_iff.mp hFound with hLocal | ⟨-, hGlobal⟩
  · obtain ⟨scope, hScope, hLocal⟩ := Option.bind_eq_some_iff.mp hLocal
    exact h.function scope hScope name symbol hLocal
  · exact h.globals name symbol hGlobal

end Scopes.Recorded

/-- The names of the parameters are declared in the head of their function. -/
theorem Scope.recorded_ofSymbols (point : Point) (depth : Nat) (parameters : List Parameter)
    (typeName : TypeName) :
    (Scope.ofSymbols ((Parameter.checkAll parameters).1.map Parameter.symbol)).Recorded
      (Outline.visits point (.ofHead depth parameters typeName)) := by
  intro name symbol hFound
  rw [Scope.get?_ofSymbols] at hFound
  have hName : symbol.name = name := by simpa using List.find?_some hFound
  have hMem := List.mem_of_find?_eq_some hFound
  rw [Parameter.checkAll_fst, List.map_map] at hMem
  obtain ⟨parameter, hParameter, rfl⟩ := List.mem_map.mp hMem
  have hEntry : (depth, Node.parameter parameter) ∈ Outline.ofHead depth parameters typeName :=
    List.mem_append_left _ (List.mem_flatMap.mpr ⟨parameter, hParameter, List.mem_cons_self⟩)
  refine ⟨_, List.mem_map.mpr ⟨_, hEntry, rfl⟩, ?_, rfl⟩
  rw [← hName]
  rfl

theorem recorded_invariant : Invariant fun before point => point.state.scopes.Recorded before where
  idle := fun _ h => h.mono _
  step := by
    intro before point s depth _ h
    rcases point.step_cases s with hState | ⟨symbol, hDeclared, hLine, hState⟩
    · rw [hState]
      exact h.mono _
    · rw [hState]
      apply (h.mono _).insert
      exact ⟨_, List.mem_append_right _ (List.mem_singleton_self _), hDeclared, hLine.symm⟩
  enter := by
    intro before point inside name parameters typeName line depth body hEnter h
    have hOutside := Point.not_inFunction_of_inside? hEnter
    rw [Point.inside?_eq, if_neg hOutside] at hEnter
    obtain rfl := Option.some.inj hEnter
    refine ⟨(h.mono _).globals, ?_⟩
    rintro scope hScope
    obtain rfl := Option.some.inj hScope
    intro name symbol hFound
    apply (Scope.recorded_ofSymbols point (depth + 1) parameters typeName name symbol hFound).mono
    intro visit hMem
    exact List.mem_append_right _ (List.mem_cons_of_mem _ hMem)
  leave := fun _ _ h => ⟨h.globals, fun _ hScope => nomatch hScope⟩

/-- The first declaration of a function is at one of the visits. -/
theorem declaredAt_of_firstDeclared? {name : String} {signature : Signature}
    (h : firstDeclared? visits name = some signature) :
    DeclaredAt visits (.function name) signature.line := by
  have hName : signature.name = name := by simpa using List.find?_some h
  obtain ⟨visit, hMem, hSignature⟩ := List.mem_filterMap.mp (List.mem_of_find?_eq_some h)
  refine ⟨visit, hMem, ?_⟩
  unfold Visit.signature? at hSignature
  split at hSignature
  · next hNode _ =>
    split at hSignature
    · cases hSignature
    · obtain rfl := Option.some.inj hSignature
      rw [hNode, ← hName]
      exact ⟨rfl, rfl⟩
  · cases hSignature

end Jingle.Typing

/-! ## Cited declarations -/

namespace Jingle

open Syntax Typing

/-- The earlier declaration that a broken rule speaks of, and its line. -/
def Violation.cited? : Violation → Option (Identifier × UInt32)
  | nameAlreadyDefined name line => some (.name name, line)
  | functionAlreadyDefined name line => some (.function name, line)
  | _ => none

end Jingle

namespace Jingle.Syntax

open Typing

variable {point : Point} {d : Diagnostic} {name : String} {line : UInt32}

/-- A name that is reported to be taken is visible. -/
theorem Node.resolve?_of_nameAlreadyDefined {node : Node} (hMem : d ∈ node.reports point)
    (hViolation : d.violation = .nameAlreadyDefined name line) :
    ¬ node.IsPart ∧ node.declared? = some (.name name) ∧
      ∃ symbol, point.state.scopes.resolve? name = some symbol ∧ symbol.line = line := by
  have hObstacle {violation : Violation} (h : point.state.scopes.obstacle? name = some violation)
      (hEq : violation = .nameAlreadyDefined name line) :
      ∃ symbol, point.state.scopes.resolve? name = some symbol ∧ symbol.line = line := by
    rcases Scopes.obstacle?_eq_some h with rfl | ⟨symbol, hFound, rfl⟩
    · cases hEq
    · cases hEq
      exact ⟨symbol, hFound, rfl⟩
  have hBears := (Node.bears_of_mem_reports hMem).2
  rw [hViolation] at hBears
  rcases hBears with ⟨a, value, info, rfl⟩ | ⟨value, info, rfl⟩
  · refine ⟨id, rfl, ?_⟩
    simp only [Node.reports] at hMem
    split at hMem
    · next violation hTaken =>
      rw [List.mem_singleton.mp hMem] at hViolation
      exact hObstacle hTaken hViolation
    · obtain ⟨_, _, hOther⟩ :=
        Verdict.ofDeclaration_violation_eq_some (Verdict.mem_diagnostics.mp hMem).2
      cases hOther.symm.trans hViolation
  · refine ⟨id, rfl, ?_⟩
    obtain ⟨violation, hTaken, rfl⟩ := List.mem_map.mp hMem
    exact hObstacle (Option.mem_toList.mp hTaken) hViolation

/-- A function that is reported to be taken is known. -/
theorem Node.get?_of_functionAlreadyDefined {node : Node} (hMem : d ∈ node.reports point)
    (hViolation : d.violation = .functionAlreadyDefined name line) :
    ¬ node.IsPart ∧ node.declared? = some (.function name) ∧
      ∃ signature, point.state.functions.get? name = some signature ∧ signature.line = line := by
  obtain ⟨hLine, hBears⟩ := Node.bears_of_mem_reports hMem
  rw [hViolation] at hBears
  obtain ⟨parameters, a, body, fnLine, rfl⟩ := hBears
  have hSame : d = ⟨fnLine, .functionAlreadyDefined name line⟩ := by
    cases d
    cases hViolation
    cases hLine
    rfl
  rw [hSame] at hMem
  exact ⟨id, rfl, Node.functionAlreadyDefined_mem_reports.mp hMem⟩

/-- A declaration that is refused for an earlier one comes after it, and cites its line. -/
theorem Block.exists_cited {block : Block} {before after : List Visit} {visit : Visit}
    {i : Identifier} (hWalk : block.walk = before ++ visit :: after) (hMem : d ∈ visit.reports)
    (hCited : d.violation.cited? = some (i, line)) :
    visit.node.declared? = some i ∧ visit.node.line = d.line ∧ DeclaredAt before i line := by
  obtain ⟨point, hPoint, hMem⟩ := Visit.mem_reports.mp hMem
  have hLine := (Node.bears_of_mem_reports hMem).1
  unfold Violation.cited? at hCited
  split at hCited
  · next name cited hViolation =>
    cases hCited
    obtain ⟨hStmt, hDeclared, symbol, hFound, rfl⟩ :=
      Node.resolve?_of_nameAlreadyDefined hMem hViolation
    have hHeld := recorded_invariant.block .empty hWalk hPoint
    exact ⟨hDeclared, hLine.symm, (hHeld.stmt hStmt).resolve? hFound⟩
  · next name cited hViolation =>
    cases hCited
    obtain ⟨hStmt, hDeclared, signature, hKnown, rfl⟩ :=
      Node.get?_of_functionAlreadyDefined hMem hViolation
    rw [Block.get?_functions hWalk hPoint (.inl hStmt)] at hKnown
    exact ⟨hDeclared, hLine.symm, declaredAt_of_firstDeclared? hKnown⟩
  · cases hCited

/-! ## Lines of annotated programs -/

theorem Node.notExpr_of_declared? {node : Node} {i : Identifier}
    (h : node.declared? = some i) : node.notExpr := by
  cases node with
  | expr => cases h
  | stmt | location | typeName | parameter => rfl

theorem Stmt.eraseTypes_line : ∀ s : Stmt, s.eraseTypes.line = s.line
  | .branch _ ⟨_, _⟩ ⟨_, _⟩ _ | .loop _ ⟨_, _⟩ _ | .fnDecl _ _ _ ⟨_, _⟩ _ => rfl
  | .varDecl .. | .constDecl .. | .echo .. | .assign .. | .ret .. => rfl

theorem Expr.eraseTypes_line (e : Expr) : e.eraseTypes.line = e.line := by
  cases e <;> rfl

/-- Annotated nodes stay on their lines. -/
theorem Node.annotate_line (point : Point) (node : Node) :
    (node.annotate point).line = node.line := by
  cases node with
  | stmt s =>
    have hSame := congrArg Stmt.line (s.eraseTypes_check point.state point.returns)
    rwa [Stmt.eraseTypes_line, Stmt.eraseTypes_line] at hSame
  | expr e =>
    have hSame := congrArg Expr.line (e.eraseTypes_check point.state)
    rwa [Expr.eraseTypes_line, Expr.eraseTypes_line] at hSame
  | location | typeName | parameter => rfl

/-- But for expressions, the lines in the outline of an annotated program do not go back if those in
the outline of the program do not. -/
theorem Block.outline_check_sorted {block : Block}
    (h : block.outline.Pairwise fun a b => a.2.notExpr → b.2.notExpr → a.2.line ≤ b.2.line) :
    block.check.1.outline.Pairwise fun a b =>
      a.2.notExpr → b.2.notExpr → a.2.line ≤ b.2.line := by
  have hLine (visit : Visit) : visit.annotated.2.line = visit.entry.2.line := by
    obtain ⟨depth, node, point?⟩ := visit
    cases point? with
    | none => rfl
    | some point => exact node.annotate_line point
  have hExpr (visit : Visit) : visit.annotated.2.notExpr = visit.entry.2.notExpr := by
    obtain ⟨depth, node, point?⟩ := visit
    cases point? <;> cases node <;> rfl
  rw [← block.walk_entries, List.pairwise_map] at h
  rw [← block.walk_annotated, List.pairwise_map]
  simpa only [hLine, hExpr] using h

/-- An annotated program is reported on like the program. -/
theorem Block.check_check_snd (block : Block) : block.check.1.check.2 = block.check.2 := by
  have hSame : Stmt.checkAll .initial none block.check.1.body =
      Stmt.checkAll .initial none block.body := Stmt.checkAll_checkAll .initial none block.body
  change (Stmt.checkAll .initial none block.check.1.body).diagnostics = _
  rw [hSame]
  rfl

end Jingle.Syntax

namespace Jingle

open Syntax Grammar Typing

/-- But for expressions, the lines in the outline of the program of a source do not go back, as long
as they fit. -/
theorem outline_sorted_of_checkSource {source : String} {block : Block}
    {diagnostics : List Diagnostic} (h : checkSource source = .ok (block, diagnostics))
    (hFits : source.toList.count '\n' + 1 < UInt32.size) :
    block.outline.Pairwise fun a b => a.2.notExpr → b.2.notExpr → a.2.line ≤ b.2.line := by
  obtain ⟨tokens, program, hTokens, hRead, hCheck⟩ := exists_program_of_checkSource h
  obtain rfl : program.check.1 = block := congrArg Prod.fst hCheck
  obtain ⟨passed, c', hPassed, -, hIn⟩ := Block.ofTokens_sound hRead
  rw [Cursor.Passes, Token.tokens_ofTokens_of_tokenize hTokens] at hPassed
  have hSorted := Token.tokenize_lines_sorted hFits hTokens
  rw [hPassed.1] at hSorted
  exact Block.outline_check_sorted (Block.outline_sorted hIn (List.pairwise_append.mp hSorted).1)

/-- A declaration in a source is refused for an earlier one only after a declaration of the same
name on the line that is cited. That line is not a later one, as long as the lines of the source
fit. -/
theorem checkSource_cites {source : String} {block : Block} {diagnostics : List Diagnostic}
    (h : checkSource source = .ok (block, diagnostics)) :
    block.walk.map Visit.entry = block.outline ∧
    diagnostics.Perm (block.walk.flatMap Visit.reports) ∧
    ∀ before visit after, block.walk = before ++ visit :: after →
      ∀ d ∈ visit.reports, ∀ i line, d.violation.cited? = some (i, line) →
        visit.node.declared? = some i ∧ visit.node.line = d.line ∧
        ∃ cited ∈ before, cited.node.declared? = some i ∧ cited.node.line = line ∧
          (source.toList.count '\n' + 1 < UInt32.size → line ≤ d.line) := by
  -- The tree that is handed out is annotated, and checking does not read what it has written.
  have hReports : block.check.2 = diagnostics := by
    obtain ⟨tokens, program, -, -, hCheck⟩ := exists_program_of_checkSource h
    obtain rfl : program.check.1 = block := congrArg Prod.fst hCheck
    rw [program.check_check_snd, hCheck]
  refine ⟨block.walk_entries, hReports ▸ block.walk_reports, ?_⟩
  intro before visit after hWalk d hMem i line hCited
  obtain ⟨hDeclared, hLine, cited, hBefore, hEarlier, rfl⟩ :=
    Block.exists_cited hWalk hMem hCited
  refine ⟨hDeclared, hLine, cited, hBefore, hEarlier, rfl, ?_⟩
  intro hFits
  have hSorted := outline_sorted_of_checkSource h hFits
  rw [← block.walk_entries, hWalk, List.pairwise_map] at hSorted
  have hOrder := (List.pairwise_append.mp hSorted).2.2 cited hBefore visit List.mem_cons_self
  rw [← hLine]
  exact hOrder (Node.notExpr_of_declared? hEarlier) (Node.notExpr_of_declared? hDeclared)

/-- A variable of a function has the name of a parameter on the line before. -/
theorem checkSource_cites_parameter :
    let source := "fn f(x: int) -> int \x7b\nvar x: int;\n\x7d"
    let d : Diagnostic := ⟨2, .nameAlreadyDefined "x" 1⟩
    ∃ block diagnostics, checkSource source = .ok (block, diagnostics) ∧ d ∈ diagnostics ∧
      ∃ before visit after, block.walk = before ++ visit :: after ∧ d ∈ visit.reports ∧
        ∃ cited ∈ before, cited.node.declared? = some (.name "x") ∧ cited.node.line = 1 ∧
          (1 : UInt32) ≤ d.line := by
  intro source d
  have hTokens : Token.tokenize source = .ok
      [⟨.fnWord, "fn", 0, 2, 1⟩, ⟨.identifier, "f", 3, 4, 1⟩, ⟨.openParen, "(", 4, 5, 1⟩,
        ⟨.identifier, "x", 5, 6, 1⟩, ⟨.colon, ":", 6, 7, 1⟩, ⟨.identifier, "int", 8, 11, 1⟩,
        ⟨.closeParen, ")", 11, 12, 1⟩, ⟨.arrow, "->", 13, 15, 1⟩, ⟨.identifier, "int", 16, 19, 1⟩,
        ⟨.openCurly, "\x7b", 20, 21, 1⟩, ⟨.varWord, "var", 22, 25, 2⟩,
        ⟨.identifier, "x", 26, 27, 2⟩, ⟨.colon, ":", 27, 28, 2⟩, ⟨.identifier, "int", 29, 32, 2⟩,
        ⟨.semicolon, ";", 32, 33, 2⟩, ⟨.closeCurly, "\x7d", 34, 35, 3⟩,
        ⟨.eof, "EOF", 35, 35, 3⟩] := by decide
  let shadowing : Stmt := .varDecl "x" ⟨⟨2, none⟩, "int"⟩ none ⟨2, none⟩
  let function : Stmt := .fnDecl "f" [⟨⟨1, none⟩, "x", ⟨⟨1, none⟩, "int"⟩⟩] ⟨⟨1, none⟩, "int"⟩
    ⟨1, [shadowing]⟩ 1
  let block : Block := (Block.mk 1 [function]).check.1
  have hChecked : checkSource source = .ok (block, [d, ⟨1, .missingReturn "f"⟩]) := by
    rw [checkSource_eq_of_tokenize hTokens]
    rfl
  obtain ⟨-, -, hCites⟩ := checkSource_cites hChecked
  have hWalk : block.walk =
      block.walk.take 4 ++ block.walk.get ⟨4, by decide⟩ :: block.walk.drop 5 := rfl
  have hMem : d ∈ (block.walk.get ⟨4, by decide⟩).reports := by decide
  obtain ⟨-, -, cited, hBefore, hDeclared, hLine, hOrder⟩ := hCites _ _ _ hWalk d hMem _ _ rfl
  exact ⟨block, _, hChecked, List.mem_cons_self, _, _, _, hWalk, hMem, cited, hBefore, hDeclared,
    hLine, hOrder (by decide)⟩

/-! ## Lines that do not fit -/

/-- Two declarations of a name with line feeds between them. -/
def redeclared (feeds : Nat) : String :=
  "var x: int;" ++ String.ofList (List.replicate feeds '\n') ++ "var x: int;"

theorem count_redeclared (feeds : Nat) : (redeclared feeds).toList.count '\n' = feeds := by
  simp only [redeclared, String.toList_append, String.toList_ofList, List.count_append,
    List.count_replicate_self]
  exact Nat.zero_add feeds

/-- The second declaration is moved by the line feeds before it, whatever becomes of its line. -/
theorem checkSource_redeclared (feeds : Nat) :
    ∃ block, checkSource (redeclared (feeds + 1)) =
      .ok (block, [⟨1 + feeds.toUInt32 + 1, .nameAlreadyDefined "x" 1⟩]) := by
  let tokens : List Token := [⟨.varWord, "var", 0, 3, 1⟩, ⟨.identifier, "x", 4, 5, 1⟩,
    ⟨.colon, ":", 5, 6, 1⟩, ⟨.identifier, "int", 7, 10, 1⟩, ⟨.semicolon, ";", 10, 11, 1⟩,
    ⟨.eof, "EOF", 11, 11, 1⟩]
  have hTokens : Token.tokenize "var x: int;" = .ok tokens := by decide
  have hClosed : Token.CommentsClosed tokens := by decide
  let blanks := List.replicate feeds '\n'
  let second := String.ofList blanks ++ "var x: int;"
  have hSecond : Token.tokenize second =
      .ok (tokens.map (Token.moved (Text.byteLength blanks) feeds)) := by
    have hText : second.toList = blanks ++ "var x: int;".toList := by
      rw [String.toList_append, String.toList_ofList]
    rw [Token.tokenize, hText, Token.scan_replicate rfl, Text.Mark.advance_start, Token.scan_moved,
      List.count_replicate_self]
    exact congrArg (Token.movedResult _ _) hTokens
  have hSource : redeclared (feeds + 1) = "var x: int;" ++ "\n" ++ second := by
    have hFeeds : String.ofList (['\n'] ++ blanks) = "\n" ++ String.ofList blanks :=
      String.ofList_append
    change "var x: int;" ++ String.ofList (['\n'] ++ blanks) ++ "var x: int;" = _
    rw [hFeeds, String.append_assoc, String.append_assoc, String.append_assoc]
  have hJoined := Token.tokenize_append_eq hTokens hClosed second
  rw [hSecond] at hJoined
  rw [hSource, checkSource_eq_of_tokenize hJoined]
  exact ⟨_, rfl⟩

/-- With one line feed more than lines fit, the second declaration stands on line 0 and cites
line 1. -/
theorem checkSource_cites_later :
    let source := redeclared (UInt32.size - 1)
    let d : Diagnostic := ⟨0, .nameAlreadyDefined "x" 1⟩
    source.toList.count '\n' + 1 = UInt32.size ∧
      (∃ block, checkSource source = .ok (block, [d])) ∧
      d.violation.cited? = some (.name "x", 1) ∧ ¬ (1 : UInt32) ≤ d.line := by
  intro source d
  have hCount : source.toList.count '\n' + 1 = UInt32.size := by
    rw [count_redeclared]
    rfl
  exact ⟨hCount, checkSource_redeclared (UInt32.size - 2), rfl, by decide⟩

end Jingle
