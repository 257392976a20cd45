import Jingle.Proofs.Grammar.Order
import Jingle.Proofs.Grammar.Program
import Jingle.Proofs.Token.Line

/-!
# Lines of a tree in the order of the source

The nodes of a part of a tree stand together when all nodes are listed in the order of the source.
So what is known of the lines of the whole list is known of every part of the tree.

* `Nested nodes` says that with every node of a list the nodes of its part stand together in it.
* `Block.inOrder_infix` says that the nodes of an inner block stand together too.
* `Block.ofTokens_follows` says how the lines in a tree follow the lines of its tokens.
-/

namespace Jingle.Syntax

/-! ## Parts of a tree -/

/-- The nodes of the part of a tree below a node and the node itself, in the order of the source. -/
def Node.inOrder : Node → List Node
  | .stmt s => s.inOrder
  | .expr e => e.inOrder
  | .parameter p => p.inOrder
  | node@(.location _) | node@(.typeName _) => [node]

/-- With every node of the list the nodes of its part stand together in the list. -/
def Nested (nodes : List Node) : Prop :=
  ∀ node ∈ nodes, node.inOrder <:+: nodes

namespace Nested

theorem nil : Nested [] :=
  List.forall_mem_nil _

theorem append {nodes others : List Node} (h : Nested nodes) (h' : Nested others) :
    Nested (nodes ++ others) := by
  intro node hMem
  rcases List.mem_append.mp hMem with hMem | hMem
  · exact (h node hMem).trans (List.prefix_append _ _).isInfix
  · exact (h' node hMem).trans (List.suffix_append _ _).isInfix

/-- A node between the two halves of its part. -/
theorem around {node : Node} {front back : List Node} (hFront : Nested front) (hBack : Nested back)
    (hNode : node.inOrder = front ++ node :: back) : Nested (front ++ node :: back) := by
  intro other hMem
  rcases List.mem_append.mp hMem with hMem | hMem
  · exact (hFront other hMem).trans (List.prefix_append _ _).isInfix
  · rcases List.mem_cons.mp hMem with rfl | hMem
    · exact hNode ▸ List.infix_rfl
    · have hBehind : back <:+ front ++ node :: back :=
        (List.suffix_cons _ _).trans (List.suffix_append _ _)
      exact (hBack other hMem).trans hBehind.isInfix

/-- A node before the rest of its part. -/
theorem cons {node : Node} {nodes : List Node} (h : Nested nodes)
    (hNode : node.inOrder = node :: nodes) : Nested (node :: nodes) :=
  around nil h hNode

theorem location (location : Location) : Nested [.location location] :=
  nil.cons rfl

theorem typeName (typeName : TypeName) : Nested [.typeName typeName] :=
  nil.cons rfl

end Nested

mutual

theorem Expr.nested : ∀ e : Expr, Nested e.inOrder
  | .literal .. => Nested.nil.cons rfl
  | .binary _ left right _ => left.nested.around right.nested rfl
  | .unary _ operand _ => operand.nested.cons rfl
  | .symbol location _ => (Nested.location location).cons rfl
  | .call _ arguments _ => (Expr.nestedAll arguments).cons rfl

theorem Expr.nestedAll : ∀ exprs : List Expr, Nested (Expr.inOrders exprs)
  | [] => .nil
  | e :: exprs => e.nested.append (Expr.nestedAll exprs)

end

theorem Parameter.nestedAll (parameters : List Parameter) :
    Nested (parameters.flatMap Parameter.inOrder) := by
  induction parameters with
  | nil => exact .nil
  | cons parameter parameters ih =>
    have hFirst : Nested parameter.inOrder := (Nested.typeName parameter.typeName).cons rfl
    exact hFirst.append ih

mutual

theorem Stmt.nested : ∀ s : Stmt, Nested s.inOrder
  | .varDecl _ typeName none _ => (Nested.typeName typeName).cons rfl
  | .varDecl _ typeName (some value) _ => ((Nested.typeName typeName).append value.nested).cons rfl
  | .constDecl _ value _ | .echo value _ | .ret value _ => value.nested.cons rfl
  | .branch condition ⟨_, thenBody⟩ ⟨_, elseBody⟩ _ =>
    (condition.nested.append ((Stmt.nestedAll thenBody).append (Stmt.nestedAll elseBody))).cons rfl
  | .loop condition ⟨_, body⟩ _ => (condition.nested.append (Stmt.nestedAll body)).cons rfl
  | .assign target value _ => ((Nested.location target).append value.nested).cons rfl
  | .fnDecl _ parameters returns ⟨_, body⟩ _ =>
    ((Parameter.nestedAll parameters).append
      ((Nested.typeName returns).append (Stmt.nestedAll body))).cons rfl

theorem Stmt.nestedAll : ∀ stmts : List Stmt, Nested (Stmt.inOrders stmts)
  | [] => .nil
  | s :: stmts => s.nested.append (Stmt.nestedAll stmts)

end

/-! ## Inner blocks -/

mutual

theorem Stmt.inOrder_infix {inner : Block} :
    ∀ s : Stmt, inner ∈ s.blocks → inner.inOrder <:+: s.inOrder
  | .branch condition ⟨_, thenBody⟩ ⟨_, elseBody⟩ _, hMem => by
    rcases List.mem_append.mp hMem with hMem | hMem
    · exact (Block.inOrder_infix ⟨_, thenBody⟩ hMem).trans
        (List.infix_append' (_ :: condition.inOrder) _ _)
    · have hElse := Block.inOrder_infix ⟨_, elseBody⟩ hMem
      exact hElse.trans ((List.suffix_append (Stmt.inOrders thenBody) _).trans
        (List.suffix_append (_ :: condition.inOrder) _)).isInfix
  | .loop condition ⟨_, body⟩ _, hMem =>
    (Block.inOrder_infix ⟨_, body⟩ hMem).trans
      (List.suffix_append (_ :: condition.inOrder) _).isInfix
  | .fnDecl _ parameters _ ⟨_, body⟩ _, hMem =>
    (Block.inOrder_infix ⟨_, body⟩ hMem).trans ((List.suffix_cons _ _).trans
      (List.suffix_append (_ :: parameters.flatMap Parameter.inOrder) _)).isInfix

theorem Block.inOrder_infix {inner : Block} :
    ∀ block : Block, inner ∈ block.blocks → inner.inOrder <:+: block.inOrder
  | ⟨line, body⟩, hMem => by
    rcases List.mem_cons.mp hMem with rfl | hMem
    · exact List.infix_rfl
    · exact Stmt.inOrders_infix body hMem

theorem Stmt.inOrders_infix {inner : Block} :
    ∀ stmts : List Stmt, inner ∈ Stmt.blocksAll stmts → inner.inOrder <:+: Stmt.inOrders stmts
  | s :: stmts, hMem => by
    rcases List.mem_append.mp hMem with hMem | hMem
    · exact (s.inOrder_infix hMem).trans (List.prefix_append _ _).isInfix
    · exact (Stmt.inOrders_infix stmts hMem).trans (List.suffix_append _ _).isInfix

end

theorem Stmt.inOrders_eq_flatMap (stmts : List Stmt) :
    Stmt.inOrders stmts = stmts.flatMap Stmt.inOrder := by
  induction stmts with
  | nil => rfl
  | cons s stmts ih => rw [Stmt.inOrders, ih, List.flatMap_cons]

/-! ## Programs -/

/-- The lines in the tree of a program follow the lines of its tokens. -/
structure Block.Follows (tokens : List Token) (block : Block) : Prop where
  /-- In the order of the source are all nodes of the outline, and only operations with two operands
  have another place. -/
  nodes : block.inOrder.Perm (block.outline.map Prod.snd) ∧
    block.inOrder.filter Node.notBinary = (block.outline.map Prod.snd).filter Node.notBinary
  /-- Every node is on the line of a token. -/
  line : ∀ node ∈ block.inOrder, ∃ token ∈ tokens, token.line = node.line
  /-- In the order of the source lines do not go back. -/
  sorted : block.inOrder.Pairwise (·.line ≤ ·.line)
  /-- No node of a statement is before the line of the statement. -/
  stmt : ∀ s : Stmt, .stmt s ∈ block.inOrder → ∀ node ∈ s.inOrder, s.line ≤ node.line
  /-- In every block the nodes of a statement are at or before those of the statements after it. -/
  body : ∀ inner ∈ block.blocks, inner.body.Pairwise fun s t =>
    ∀ node ∈ s.inOrder, ∀ other ∈ t.inOrder, node.line ≤ other.line
  /-- An operation is between its operands. -/
  binary : ∀ op left right info, .expr (.binary op left right info) ∈ block.inOrder →
    (∀ node ∈ left.inOrder, node.line ≤ info.line) ∧ ∀ node ∈ right.inOrder, info.line ≤ node.line

/-- A statement is the first of its nodes. -/
theorem Stmt.inOrder_eq_cons : ∀ s : Stmt, ∃ nodes, s.inOrder = .stmt s :: nodes
  | .varDecl .. | .constDecl .. | .echo .. | .assign .. | .ret .. => ⟨_, rfl⟩
  | .branch _ ⟨_, _⟩ ⟨_, _⟩ _ | .loop _ ⟨_, _⟩ _ | .fnDecl _ _ _ ⟨_, _⟩ _ => ⟨_, rfl⟩

section Sorted

variable {nodes : List Node} (hSorted : nodes.Pairwise (·.line ≤ ·.line)) (hNested : Nested nodes)

include hSorted hNested

theorem Node.inOrder_sorted {node : Node} (hMem : node ∈ nodes) :
    node.inOrder.Pairwise (·.line ≤ ·.line) :=
  hSorted.sublist (hNested node hMem).sublist

theorem Stmt.line_le_of_mem {s : Stmt} (hMem : .stmt s ∈ nodes) {node : Node}
    (hNode : node ∈ s.inOrder) : s.line ≤ node.line := by
  have hPart : s.inOrder.Pairwise (·.line ≤ ·.line) := Node.inOrder_sorted hSorted hNested hMem
  obtain ⟨others, hOthers⟩ := s.inOrder_eq_cons
  rw [hOthers] at hPart hNode
  rcases List.mem_cons.mp hNode with rfl | hLater
  · exact UInt32.le_refl _
  · exact (List.pairwise_cons.mp hPart).1 node hLater

theorem Expr.line_between {op : BinaryOp} {left right : Expr} {info : Info}
    (hMem : .expr (.binary op left right info) ∈ nodes) :
    (∀ node ∈ left.inOrder, node.line ≤ info.line) ∧
      ∀ node ∈ right.inOrder, info.line ≤ node.line := by
  obtain ⟨-, hRight, hLeft⟩ := List.pairwise_append.mp (Node.inOrder_sorted hSorted hNested hMem)
  constructor
  · exact fun node hNode => hLeft node hNode _ List.mem_cons_self
  · exact (List.pairwise_cons.mp hRight).1

end Sorted

/-- The tree that is read from tokens whose lines do not go back has its lines in the order of the
source. -/
theorem Block.ofTokens_follows {tokens : List Token} {block : Block}
    (hSorted : tokens.Pairwise (·.line ≤ ·.line)) (hRead : Block.ofTokens tokens = .ok block) :
    block.Follows tokens := by
  obtain ⟨passed, stop, hPassed, -, hIn⟩ := Block.ofTokens_sound hRead
  have hPrefix := hPassed.isPrefix
  have hNested : Nested block.inOrder := Stmt.nestedAll block.body
  have hLines := hIn.spans.sorted (hSorted.sublist hPrefix.sublist)
  refine ⟨⟨block.inOrder_perm, ?_⟩, ?_, hLines, ?_, ?_, ?_⟩
  · exact (block.filter_outline fun _ _ _ _ => Bool.false_ne_true).symm
  · intro node hMem
    obtain ⟨token, hToken, hLine⟩ := hIn.spans.mem node hMem
    exact ⟨token, hPrefix.subset hToken, hLine⟩
  · exact fun s hMem node hNode => Stmt.line_le_of_mem hLines hNested hMem hNode
  · intro inner hMem
    have hInner := hLines.sublist (Block.inOrder_infix block hMem).sublist
    rw [Block.inOrder, Stmt.inOrders_eq_flatMap, List.pairwise_flatMap] at hInner
    exact hInner.2
  · exact fun op left right info hMem => Expr.line_between hLines hNested hMem

/-- A loop whose condition and body go over several lines. -/
theorem Block.ofTokens_follows_loop :
    let source := "while a\n  < b \x7b x =\n f(c,\n d); \x7d"
    let tokens : List Token :=
      [⟨.whileWord, "while", 0, 5, 1⟩, ⟨.identifier, "a", 6, 7, 1⟩, ⟨.less, "<", 10, 11, 2⟩,
        ⟨.identifier, "b", 12, 13, 2⟩, ⟨.openCurly, "\x7b", 14, 15, 2⟩,
        ⟨.identifier, "x", 16, 17, 2⟩, ⟨.assign, "=", 18, 19, 2⟩, ⟨.identifier, "f", 21, 22, 3⟩,
        ⟨.openParen, "(", 22, 23, 3⟩, ⟨.identifier, "c", 23, 24, 3⟩, ⟨.comma, ",", 24, 25, 3⟩,
        ⟨.identifier, "d", 27, 28, 4⟩, ⟨.closeParen, ")", 28, 29, 4⟩, ⟨.semicolon, ";", 29, 30, 4⟩,
        ⟨.closeCurly, "\x7d", 31, 32, 4⟩, ⟨.eof, "EOF", 32, 32, 4⟩]
    let symbol (name : String) (line : UInt32) : Expr := .symbol ⟨⟨line, none⟩, name⟩ ⟨line, none⟩
    let block : Block :=
      ⟨1, [.loop (.binary .less (symbol "a" 1) (symbol "b" 2) ⟨2, none⟩)
        ⟨2, [.assign ⟨⟨2, none⟩, "x"⟩ (.call "f" [symbol "c" 3, symbol "d" 4] ⟨3, none⟩) ⟨2, none⟩]⟩
        1]⟩
    Token.tokenize source = .ok tokens ∧ Block.ofTokens tokens = .ok block ∧
      block.Follows tokens := by
  intro source tokens symbol block
  have hTokens : Token.tokenize source = .ok tokens := by decide
  have hSorted := Token.tokenize_lines_sorted (by decide) hTokens
  have hRead : Block.ofTokens tokens = .ok block := rfl
  exact ⟨hTokens, hRead, Block.ofTokens_follows hSorted hRead⟩

end Jingle.Syntax
