import Jingle.Proofs.Grammar.Rules
import Jingle.Syntax.Outline

/-!
# Nodes in the order of the source

The nodes of a program follow the tokens that they are made of. In an outline only the operations
with two operands are out of this order, since they stand before both of their operands.

* `Block.inOrder` lists the nodes of a program in the order of the source.
* `ProgramIn.spans` says that their lines follow the lines of the tokens.
* `Block.filter_outline` and `Block.inOrder_perm` compare this order with the outline: all nodes are
  in both, and all but operations with two operands are in the same order.
* `Block.outline_sorted` says that the lines of the outline are in order, but for expressions.
-/

namespace Jingle.Syntax

mutual

/-- The nodes of an expression in the order of the source. -/
def Expr.inOrder : Expr → List Node
  | e@(.literal ..) => [.expr e]
  | e@(.binary _ left right _) => left.inOrder ++ .expr e :: right.inOrder
  | e@(.unary _ operand _) => .expr e :: operand.inOrder
  | e@(.symbol location _) => [.expr e, .location location]
  | e@(.call _ arguments _) => .expr e :: Expr.inOrders arguments

/-- The nodes of expressions one after another. -/
def Expr.inOrders : List Expr → List Node
  | [] => []
  | e :: exprs => e.inOrder ++ Expr.inOrders exprs

end

/-- The nodes of a parameter. -/
def Parameter.inOrder (parameter : Parameter) : List Node :=
  [.parameter parameter, .typeName parameter.typeName]

mutual

/-- The nodes of a statement in the order of the source. -/
def Stmt.inOrder : Stmt → List Node
  | s@(.varDecl _ typeName value _) =>
    .stmt s :: .typeName typeName ::
      (match value with
        | some e => e.inOrder
        | none => [])
  | s@(.constDecl _ value _) => .stmt s :: value.inOrder
  | s@(.echo value _) => .stmt s :: value.inOrder
  | s@(.branch condition ⟨_, thenBody⟩ ⟨_, elseBody⟩ _) =>
    .stmt s :: (condition.inOrder ++ (Stmt.inOrders thenBody ++ Stmt.inOrders elseBody))
  | s@(.loop condition ⟨_, body⟩ _) => .stmt s :: (condition.inOrder ++ Stmt.inOrders body)
  | s@(.assign target value _) => .stmt s :: .location target :: value.inOrder
  | s@(.fnDecl _ parameters returns ⟨_, body⟩ _) =>
    .stmt s :: (parameters.flatMap Parameter.inOrder ++ .typeName returns :: Stmt.inOrders body)
  | s@(.ret value _) => .stmt s :: value.inOrder

/-- The nodes of statements one after another. -/
def Stmt.inOrders : List Stmt → List Node
  | [] => []
  | s :: stmts => s.inOrder ++ Stmt.inOrders stmts

end

/-- The nodes of a program in the order of the source. -/
def Block.inOrder (block : Block) : List Node :=
  Stmt.inOrders block.body

namespace Stmt

theorem inOrder_branch (condition : Expr) (thenBody elseBody : Block) (line : UInt32) :
    (branch condition thenBody elseBody line).inOrder =
      .stmt (branch condition thenBody elseBody line) ::
        (condition.inOrder ++ (thenBody.inOrder ++ elseBody.inOrder)) := by
  obtain ⟨_, _⟩ := thenBody
  obtain ⟨_, _⟩ := elseBody
  rfl

theorem inOrder_loop (condition : Expr) (body : Block) (line : UInt32) :
    (loop condition body line).inOrder =
      .stmt (loop condition body line) :: (condition.inOrder ++ body.inOrder) := by
  obtain ⟨_, _⟩ := body
  rfl

theorem inOrder_fnDecl (name : String) (parameters : List Parameter) (typeName : TypeName)
    (body : Block) (line : UInt32) :
    (fnDecl name parameters typeName body line).inOrder =
      .stmt (fnDecl name parameters typeName body line) ::
        (parameters.flatMap Parameter.inOrder ++ .typeName typeName :: body.inOrder) := by
  obtain ⟨_, _⟩ := body
  rfl

end Stmt

end Jingle.Syntax

namespace Jingle.Grammar

open Syntax

/-! ## Nodes and their tokens -/

/-- Every node is on the line of one of the tokens, and the lines of the nodes do not go back if
those of the tokens do not. -/
structure Spans (tokens : List Token) (nodes : List Node) : Prop where
  mem : ∀ node ∈ nodes, ∃ token ∈ tokens, token.line = node.line
  sorted : tokens.Pairwise (·.line ≤ ·.line) → nodes.Pairwise (·.line ≤ ·.line)

namespace Spans

variable {first second tokens : List Token} {nodes others : List Node} {token : Token} {node : Node}

theorem nil (tokens : List Token) : Spans tokens [] :=
  ⟨List.forall_mem_nil _, fun _ => .nil⟩

theorem append (hFirst : Spans first nodes) (hSecond : Spans second others) :
    Spans (first ++ second) (nodes ++ others) := by
  constructor
  · intro node hMem
    rcases List.mem_append.mp hMem with hMem | hMem
    · obtain ⟨token, hToken, hLine⟩ := hFirst.mem node hMem
      exact ⟨token, List.mem_append_left _ hToken, hLine⟩
    · obtain ⟨token, hToken, hLine⟩ := hSecond.mem node hMem
      exact ⟨token, List.mem_append_right _ hToken, hLine⟩
  · intro hSorted
    obtain ⟨hSorted₁, hSorted₂, hBetween⟩ := List.pairwise_append.mp hSorted
    refine List.pairwise_append.mpr ⟨hFirst.sorted hSorted₁, hSecond.sorted hSorted₂, ?_⟩
    intro node hNode other hOther
    obtain ⟨token, hToken, hLine⟩ := hFirst.mem node hNode
    obtain ⟨token', hToken', hLine'⟩ := hSecond.mem other hOther
    rw [← hLine, ← hLine']
    exact hBetween token hToken token' hToken'

/-- A token that leaves no node. -/
theorem skip (h : Spans tokens nodes) : Spans (token :: tokens) nodes :=
  (nil [token]).append h

/-- A token at the end that leaves no node. -/
theorem close (h : Spans tokens nodes) : Spans (tokens ++ [token]) nodes := by
  have hClosed := h.append (nil [token])
  rwa [List.append_nil] at hClosed

/-- A node that begins with the first token. -/
theorem cons (hLine : node.line = token.line) (h : Spans (token :: tokens) nodes) :
    Spans (token :: tokens) (node :: nodes) := by
  constructor
  · exact List.forall_mem_cons.mpr ⟨⟨token, List.mem_cons_self, hLine.symm⟩, h.mem⟩
  · intro hSorted
    refine .cons ?_ (h.sorted hSorted)
    intro other hOther
    obtain ⟨token', hToken', hLine'⟩ := h.mem other hOther
    rw [hLine, ← hLine']
    rcases List.mem_cons.mp hToken' with rfl | hLater
    · exact UInt32.le_refl _
    · exact (List.pairwise_cons.mp hSorted).1 token' hLater

end Spans

/-! ## Trees of the grammar -/

mutual

theorem ExprIn.spans {stratum : Stratum} {tokens : List Token} {e : Expr} :
    ExprIn stratum tokens e → Spans tokens e.inOrder
  | .chain _ hFirst hRest => hRest.spans hFirst.spans
  | .prefixed _ hOperand => hOperand.spans.skip.cons rfl
  | .literal _ => (Spans.nil _).cons rfl
  | .symbol _ => ((Spans.nil _).cons rfl).cons rfl
  | .call _ hArguments => (parenthesised_spans hArguments).skip.cons rfl
  | .grouped _ hInner _ => hInner.spans.close.skip

/-- A chain goes on behind the tokens of its operand. -/
theorem ChainIn.spans {stratum : Stratum} {first tokens : List Token} {left tree : Expr} :
    ChainIn stratum left tokens tree → Spans first left.inOrder →
      Spans (first ++ tokens) tree.inOrder
  | .nil, hLeft => by rwa [List.append_nil]
  | @ChainIn.cons _ token tokens others op left right _ _ hRight hRest, hLeft => by
    have hBehind : Spans (token :: tokens)
        (.expr (.binary op left right ⟨token.line, none⟩) :: right.inOrder) :=
      hRight.spans.skip.cons rfl
    have hTree := hRest.spans (hLeft.append hBehind)
    rwa [List.append_assoc] at hTree

theorem parenthesised_spans {tokens : List Token} {exprs : List Expr} :
    Parenthesised (ExprIn .logical) tokens exprs → Spans tokens (Expr.inOrders exprs)
  | .none _ _ => .nil _
  | .some _ hExprs _ => (separated_spans hExprs).close.skip

theorem separated_spans {tokens : List Token} {exprs : List Expr} :
    Separated (ExprIn .logical) tokens exprs → Spans tokens (Expr.inOrders exprs)
  | .last hLast => by
    rw [Expr.inOrders, Expr.inOrders, List.append_nil]
    exact hLast.spans
  | .more hFirst _ hOthers => hFirst.spans.append (separated_spans hOthers).skip

end

theorem TypeNameIn.spans {token : Token} {typeName : TypeName} {tokens : List Token}
    {nodes : List Node} (h : TypeNameIn token typeName) (hRest : Spans tokens nodes) :
    Spans (token :: tokens) (.typeName typeName :: nodes) := by
  cases h
  exact hRest.skip.cons rfl

theorem ParameterIn.spans {tokens : List Token} {parameter : Parameter}
    (h : ParameterIn tokens parameter) : Spans tokens parameter.inOrder := by
  cases h with
  | parameter _ _ hType => exact (hType.spans (.nil [])).skip.skip.cons rfl

theorem Separated.parameters_spans {tokens : List Token} {parameters : List Parameter}
    (h : Separated ParameterIn tokens parameters) :
    Spans tokens (parameters.flatMap Parameter.inOrder) := by
  induction h with
  | last hLast =>
    rw [List.flatMap_singleton]
    exact hLast.spans
  | more hFirst _ _ ih =>
    rw [List.flatMap_cons]
    exact hFirst.spans.append ih.skip

theorem Parenthesised.parameters_spans {tokens : List Token} {parameters : List Parameter}
    (h : Parenthesised ParameterIn tokens parameters) :
    Spans tokens (parameters.flatMap Parameter.inOrder) := by
  cases h with
  | none => exact .nil _
  | some _ hParameters _ => exact hParameters.parameters_spans.close.skip

mutual

theorem StmtIn.spans {tokens : List Token} {s : Stmt} : StmtIn tokens s → Spans tokens s.inOrder
  | .varDecl _ _ _ hType _ => (hType.spans (.nil [_])).skip.skip.skip.cons rfl
  | .varDeclTo _ _ _ hType _ hValue _ =>
    (hType.spans hValue.spans.close.skip).skip.skip.skip.cons rfl
  | .constDecl _ _ _ hValue _ => hValue.spans.close.skip.skip.skip.cons rfl
  | .echo _ hValue _ | .ret _ hValue _ => hValue.spans.close.skip.cons rfl
  | .branch hBranch => hBranch.spans
  | .loop _ hCondition hBody => by
    rw [Stmt.inOrder_loop]
    exact (hCondition.spans.append hBody.spans).skip.cons rfl
  | .fnDecl _ _ hParameters _ hType hBody => by
    rw [Stmt.inOrder_fnDecl]
    have hResult := hType.spans hBody.spans
    exact (hParameters.parameters_spans.append hResult.skip).skip.skip.cons rfl
  | .assign _ _ hValue _ => (hValue.spans.close.skip.skip.cons rfl).cons rfl

theorem BranchIn.spans {tokens : List Token} {s : Stmt} :
    BranchIn tokens s → Spans tokens s.inOrder
  | .branch _ hCondition hThen hElse => by
    rw [Stmt.inOrder_branch]
    exact (hCondition.spans.append (hThen.spans.append hElse.spans)).skip.cons rfl

theorem ElseIn.spans {line : UInt32} {tokens : List Token} {block : Block} :
    ElseIn line tokens block → Spans tokens block.inOrder
  | .missing => .nil []
  | .block _ hBlock => hBlock.spans.skip
  | .branch _ hBranch => by
    rw [Block.inOrder, Stmt.inOrders, Stmt.inOrders, List.append_nil]
    exact hBranch.spans.skip

theorem BlockIn.spans {tokens : List Token} {block : Block} :
    BlockIn tokens block → Spans tokens block.inOrder
  | .block _ hBody _ => hBody.spans.close.skip

theorem StmtsIn.spans {tokens : List Token} {stmts : List Stmt} :
    StmtsIn tokens stmts → Spans tokens (Stmt.inOrders stmts)
  | .nil => .nil []
  | .cons hFirst hOthers => hFirst.spans.append hOthers.spans

end

/-- The nodes of a program follow its tokens. -/
theorem ProgramIn.spans {tokens : List Token} {block : Block} (h : ProgramIn tokens block) :
    Spans tokens block.inOrder := by
  cases h with
  | program hBody => exact hBody.spans

end Jingle.Grammar

/-! ## Outlines -/

namespace Jingle.Syntax

/-- A node that is no expression. -/
def Node.notExpr : Node → Bool
  | .expr _ => false
  | _ => true

/-- A node that is no operation with two operands. -/
def Node.notBinary : Node → Bool
  | .expr (.binary ..) => false
  | _ => true

/-- A class of nodes without the operations that have two operands. -/
def Node.NoBinary (p : Node → Bool) : Prop :=
  ∀ op left right info, ¬ p (.expr (.binary op left right info))

theorem Node.filter_cons_congr {p : Node → Bool} {nodes others : List Node} (node : Node)
    (h : nodes.filter p = others.filter p) :
    (node :: nodes).filter p = (node :: others).filter p := by
  rw [List.filter_cons, List.filter_cons, h]

section Filter

variable {p : Node → Bool}

mutual

theorem Expr.filter_outline (hClass : Node.NoBinary p) (depth : Nat) :
    ∀ e : Expr, ((e.outline depth).map Prod.snd).filter p = e.inOrder.filter p
  | .literal .. | .symbol .. => rfl
  | .binary op left right info => by
    have hNot := hClass op left right info
    rw [Expr.outline, Expr.inOrder, List.map_cons, List.map_append, List.filter_cons_of_neg hNot,
      List.filter_append, List.filter_append, List.filter_cons_of_neg hNot,
      left.filter_outline hClass, right.filter_outline hClass]
  | .unary _ operand _ => Node.filter_cons_congr _ (operand.filter_outline hClass (depth + 1))
  | .call _ arguments _ =>
    Node.filter_cons_congr _ (Expr.filter_outlines hClass (depth + 1) arguments)

theorem Expr.filter_outlines (hClass : Node.NoBinary p) (depth : Nat) :
    ∀ exprs : List Expr,
      ((Expr.outlines depth exprs).map Prod.snd).filter p = (Expr.inOrders exprs).filter p
  | [] => rfl
  | e :: exprs => by
    rw [Expr.outlines, Expr.inOrders, List.map_append, List.filter_append, List.filter_append,
      e.filter_outline hClass, Expr.filter_outlines hClass]

end

theorem Parameter.map_outline (depth : Nat) (parameters : List Parameter) :
    (parameters.flatMap (Parameter.outline depth)).map Prod.snd =
      parameters.flatMap Parameter.inOrder := by
  rw [List.map_flatMap]
  rfl

mutual

theorem Stmt.filter_outline (hClass : Node.NoBinary p) (depth : Nat) :
    ∀ s : Stmt, ((s.outline depth).map Prod.snd).filter p = s.inOrder.filter p
  | .varDecl _ _ none _ => rfl
  | .varDecl _ _ (some value) _ | .assign _ value _ =>
    Node.filter_cons_congr _ (Node.filter_cons_congr _ (value.filter_outline hClass (depth + 1)))
  | .constDecl _ value _ | .echo value _ | .ret value _ =>
    Node.filter_cons_congr _ (value.filter_outline hClass (depth + 1))
  | .branch condition ⟨_, thenBody⟩ ⟨_, elseBody⟩ _ => by
    apply Node.filter_cons_congr
    rw [List.map_append, List.map_append, List.filter_append, List.filter_append,
      List.filter_append, List.filter_append, condition.filter_outline hClass,
      Stmt.filter_outlines hClass, Stmt.filter_outlines hClass, List.append_assoc]
  | .loop condition ⟨_, body⟩ _ => by
    apply Node.filter_cons_congr
    rw [List.map_append, List.filter_append, List.filter_append,
      condition.filter_outline hClass, Stmt.filter_outlines hClass]
  | .fnDecl _ parameters _ ⟨_, body⟩ _ => by
    apply Node.filter_cons_congr
    rw [List.map_append, List.filter_append, List.filter_append, Parameter.map_outline]
    exact congrArg (_ ++ ·)
      (Node.filter_cons_congr _ (Stmt.filter_outlines hClass (depth + 1) body))

theorem Stmt.filter_outlines (hClass : Node.NoBinary p) (depth : Nat) :
    ∀ stmts : List Stmt,
      ((Stmt.outlines depth stmts).map Prod.snd).filter p = (Stmt.inOrders stmts).filter p
  | [] => rfl
  | s :: stmts => by
    rw [Stmt.outlines, Stmt.inOrders, List.map_append, List.filter_append, List.filter_append,
      s.filter_outline hClass, Stmt.filter_outlines hClass]

end

/-- But for operations with two operands, an outline is in the order of the source. -/
theorem Block.filter_outline (hClass : Node.NoBinary p) (block : Block) :
    (block.outline.map Prod.snd).filter p = block.inOrder.filter p :=
  Stmt.filter_outlines hClass 0 block.body

end Filter

mutual

theorem Expr.inOrder_perm (depth : Nat) :
    ∀ e : Expr, e.inOrder.Perm ((e.outline depth).map Prod.snd)
  | .literal .. | .symbol .. => .refl _
  | .binary _ left right _ => by
    rw [Expr.inOrder, Expr.outline, List.map_cons, List.map_append]
    have hParts := (left.inOrder_perm (depth + 1)).append (right.inOrder_perm (depth + 1))
    exact List.perm_middle.trans (hParts.cons _)
  | .unary _ operand _ => (operand.inOrder_perm (depth + 1)).cons _
  | .call _ arguments _ => (Expr.inOrders_perm (depth + 1) arguments).cons _

theorem Expr.inOrders_perm (depth : Nat) :
    ∀ exprs : List Expr, (Expr.inOrders exprs).Perm ((Expr.outlines depth exprs).map Prod.snd)
  | [] => .nil
  | e :: exprs => by
    rw [Expr.inOrders, Expr.outlines, List.map_append]
    exact (e.inOrder_perm depth).append (Expr.inOrders_perm depth exprs)

end

mutual

theorem Stmt.inOrder_perm (depth : Nat) :
    ∀ s : Stmt, s.inOrder.Perm ((s.outline depth).map Prod.snd)
  | .varDecl _ _ none _ => .refl _
  | .varDecl _ _ (some value) _ | .assign _ value _ =>
    ((value.inOrder_perm (depth + 1)).cons _).cons _
  | .constDecl _ value _ | .echo value _ | .ret value _ => (value.inOrder_perm (depth + 1)).cons _
  | .branch condition ⟨_, thenBody⟩ ⟨_, elseBody⟩ _ => by
    apply List.Perm.cons
    rw [List.map_append, List.map_append, List.append_assoc]
    exact (condition.inOrder_perm (depth + 1)).append
      ((Stmt.inOrders_perm (depth + 1) thenBody).append (Stmt.inOrders_perm (depth + 1) elseBody))
  | .loop condition ⟨_, body⟩ _ => by
    apply List.Perm.cons
    rw [List.map_append]
    exact (condition.inOrder_perm (depth + 1)).append (Stmt.inOrders_perm (depth + 1) body)
  | .fnDecl _ parameters _ ⟨_, body⟩ _ => by
    apply List.Perm.cons
    rw [List.map_append, Parameter.map_outline]
    exact ((Stmt.inOrders_perm (depth + 1) body).cons _).append_left _

theorem Stmt.inOrders_perm (depth : Nat) :
    ∀ stmts : List Stmt, (Stmt.inOrders stmts).Perm ((Stmt.outlines depth stmts).map Prod.snd)
  | [] => .nil
  | s :: stmts => by
    rw [Stmt.inOrders, Stmt.outlines, List.map_append]
    exact (s.inOrder_perm depth).append (Stmt.inOrders_perm depth stmts)

end

/-- The nodes in the order of the source are those of the outline. -/
theorem Block.inOrder_perm (block : Block) :
    block.inOrder.Perm (block.outline.map Prod.snd) :=
  Stmt.inOrders_perm 0 block.body

/-- But for expressions, the lines in the outline of a program do not go back if those of its tokens
do not. -/
theorem Block.outline_sorted {tokens : List Token} {block : Block}
    (hIn : Grammar.ProgramIn tokens block) (hSorted : tokens.Pairwise (·.line ≤ ·.line)) :
    block.outline.Pairwise fun a b => a.2.notExpr → b.2.notExpr → a.2.line ≤ b.2.line := by
  have hNodes := (hIn.spans.sorted hSorted).filter Node.notExpr
  rw [← block.filter_outline fun _ _ _ _ => Bool.false_ne_true, List.pairwise_filter,
    List.pairwise_map] at hNodes
  exact hNodes

end Jingle.Syntax
