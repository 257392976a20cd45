import Jingle.Proofs.Grammar.Program
import Jingle.Proofs.Syntax.Tree
import Jingle.Proofs.Typing.Declaration

/-!
# Coherence of annotations

Checking annotates the nodes of a program, correct or not, and leaves out what it does not visit.
Every annotation agrees with those of the parts of its node. A node that is not visited has no
annotation, and neither have its parts, so that they agree as well.

* `Node.Coherent` says how the type of a node agrees with the types of its parts.
* `Expr.check_coherent` and `Stmt.check_coherent` say that checking makes coherent trees.
* `Block.check_coherent_of_ofTokens` says it of every program that is read from tokens.
-/

namespace Jingle.Syntax

open Grammar Typing

/-! ## Coherent nodes -/

/-- The type of a node agrees with the types of its parts. An operation has the type that follows
from those of its operands, and none if an operand has none. A statement with a type has parts of
that type, and the name of a type denotes its type. -/
def Node.Coherent : Node → Prop
  | expr (.binary op left right info) =>
    info.ty = left.ty.bind fun l => right.ty.bind fun r => Ty.binary? op l r
  | expr (.unary op operand info) => info.ty = operand.ty.bind (Ty.unary? op)
  | expr (.symbol l info) => info.ty = l.ty
  | expr (.literal ..) | expr (.call ..) | location _ => True
  | typeName a => a.ty = none ∨ a.ty = Ty.ofName? a.name
  | parameter p => p.ty = p.typeName.ty
  | stmt (.varDecl _ a value info) =>
    ∀ ty, info.ty = some ty → a.ty = some ty ∧ ∀ e ∈ value, e.ty = some ty
  | stmt (.constDecl _ value info) => ∀ ty, info.ty = some ty → value.ty = some ty
  | stmt (.assign target value info) =>
    ∀ ty, info.ty = some ty → target.ty = some ty ∧ value.ty = some ty
  | stmt (.ret value info) => ∀ ty, info.ty = some ty → value.ty = some ty
  | stmt (.echo ..) | stmt (.branch ..) | stmt (.loop ..) | stmt (.fnDecl ..) => True

/-- A node without a type, as all nodes are before checking. -/
def Node.Plain (node : Node) : Prop :=
  node.ty = none

/-! ## Trees before checking -/

theorem Expr.All.root {P : Node → Prop} {e : Expr} (h : e.All P) : P (.expr e) := by
  cases e with
  | literal => exact h
  | binary | unary | symbol | call => exact h.1

mutual

theorem Expr.coherent_of_plain : ∀ {e : Expr}, e.All Node.Plain → e.All Node.Coherent
  | .literal .., _ => trivial
  | .binary op left right info, ⟨h, hLeft, hRight⟩ => by
    have hTy : left.ty = none := hLeft.root
    refine ⟨?_, Expr.coherent_of_plain hLeft, Expr.coherent_of_plain hRight⟩
    rw [Node.Coherent, hTy]
    exact h
  | .unary op operand info, ⟨h, hOperand⟩ => by
    have hTy : operand.ty = none := hOperand.root
    refine ⟨?_, Expr.coherent_of_plain hOperand⟩
    rw [Node.Coherent, hTy]
    exact h
  | .symbol location info, ⟨h, hLocation⟩ => ⟨h.trans hLocation.symm, trivial⟩
  | .call _ _ _, ⟨_, hArguments⟩ => ⟨trivial, Expr.coherentIn_of_plain hArguments⟩

theorem Expr.coherentIn_of_plain :
    ∀ {exprs : List Expr}, Expr.AllIn Node.Plain exprs → Expr.AllIn Node.Coherent exprs
  | [], _ => trivial
  | _ :: _, ⟨hFirst, hOthers⟩ => ⟨Expr.coherent_of_plain hFirst, Expr.coherentIn_of_plain hOthers⟩

end

theorem Parameter.coherent_of_plain {parameter : Parameter} (h : parameter.All Node.Plain) :
    parameter.All Node.Coherent :=
  ⟨h.1.trans h.2.symm, .inl h.2⟩

/-- A statement without a type agrees with its parts, whatever their types are. -/
theorem Stmt.coherent_of_ty_eq_none {s : Stmt} (h : s.ty = none) : (Node.stmt s).Coherent := by
  cases s with
  | varDecl | constDecl | assign | ret =>
    intro ty hTy
    cases h.symm.trans hTy
  | echo | branch | loop | fnDecl => trivial

mutual

theorem Stmt.coherent_of_plain : ∀ {s : Stmt}, s.All Node.Plain → s.All Node.Coherent
  | .varDecl .., ⟨h, hType, hValue⟩ =>
    ⟨Stmt.coherent_of_ty_eq_none h, .inl hType,
      fun e hMem => Expr.coherent_of_plain (hValue e hMem)⟩
  | .constDecl .., ⟨h, hValue⟩ | .ret .., ⟨h, hValue⟩ | .echo .., ⟨h, hValue⟩ =>
    ⟨Stmt.coherent_of_ty_eq_none h, Expr.coherent_of_plain hValue⟩
  | .branch _ ⟨_, _⟩ ⟨_, _⟩ _, ⟨_, hCondition, hThen, hElse⟩ =>
    ⟨trivial, Expr.coherent_of_plain hCondition, Stmt.coherentIn_of_plain hThen,
      Stmt.coherentIn_of_plain hElse⟩
  | .loop _ ⟨_, _⟩ _, ⟨_, hCondition, hBody⟩ =>
    ⟨trivial, Expr.coherent_of_plain hCondition, Stmt.coherentIn_of_plain hBody⟩
  | .assign .., ⟨h, _, hValue⟩ =>
    ⟨Stmt.coherent_of_ty_eq_none h, trivial, Expr.coherent_of_plain hValue⟩
  | .fnDecl _ _ _ ⟨_, _⟩ _, ⟨_, hParameters, hReturns, hBody⟩ =>
    ⟨trivial, fun p hMem => Parameter.coherent_of_plain (hParameters p hMem), .inl hReturns,
      Stmt.coherentIn_of_plain hBody⟩

theorem Stmt.coherentIn_of_plain :
    ∀ {stmts : List Stmt}, Stmt.AllIn Node.Plain stmts → Stmt.AllIn Node.Coherent stmts
  | [], _ => trivial
  | _ :: _, ⟨hFirst, hOthers⟩ => ⟨Stmt.coherent_of_plain hFirst, Stmt.coherentIn_of_plain hOthers⟩

end

end Jingle.Syntax

/-! ## Trees of the grammar -/

namespace Jingle.Grammar

open Syntax

mutual

theorem ExprIn.plain {stratum : Stratum} {tokens : List Token} {e : Expr} :
    ExprIn stratum tokens e → e.All Node.Plain
  | .chain _ hFirst hRest => hRest.plain hFirst.plain
  | .prefixed _ hOperand => ⟨rfl, hOperand.plain⟩
  | .literal _ => rfl
  | .symbol _ => ⟨rfl, rfl⟩
  | .call _ hArguments => ⟨rfl, parenthesised_plain hArguments⟩
  | .grouped _ hInner _ => hInner.plain

theorem ChainIn.plain {stratum : Stratum} {tokens : List Token} {left tree : Expr} :
    ChainIn stratum left tokens tree → left.All Node.Plain → tree.All Node.Plain
  | .nil, hLeft => hLeft
  | .cons _ hRight hRest, hLeft => hRest.plain ⟨rfl, hLeft, hRight.plain⟩

theorem parenthesised_plain {tokens : List Token} {exprs : List Expr} :
    Parenthesised (ExprIn .logical) tokens exprs → Expr.AllIn Node.Plain exprs
  | .none _ _ => trivial
  | .some _ hExprs _ => separated_plain hExprs

theorem separated_plain {tokens : List Token} {exprs : List Expr} :
    Separated (ExprIn .logical) tokens exprs → Expr.AllIn Node.Plain exprs
  | .last hLast => ⟨hLast.plain, trivial⟩
  | .more hFirst _ hOthers => ⟨hFirst.plain, separated_plain hOthers⟩

end

theorem TypeNameIn.plain {token : Token} {typeName : TypeName} (h : TypeNameIn token typeName) :
    (Node.typeName typeName).Plain := by
  cases h
  rfl

theorem ParameterIn.plain {tokens : List Token} {parameter : Parameter}
    (h : ParameterIn tokens parameter) : parameter.All Node.Plain := by
  cases h with
  | parameter _ _ hType => exact ⟨rfl, hType.plain⟩

theorem Parenthesised.forall {α : Type} {item : List Token → α → Prop} {P : α → Prop}
    (hItem : ∀ {tokens : List Token} {a : α}, item tokens a → P a) {tokens : List Token}
    {as : List α} (h : Parenthesised item tokens as) : ∀ a ∈ as, P a := by
  cases h with
  | none => simp
  | some _ hItems _ =>
    induction hItems with
    | last hLast => simpa using hItem hLast
    | more hFirst _ _ ih => exact List.forall_mem_cons.mpr ⟨hItem hFirst, ih⟩

mutual

theorem StmtIn.plain {tokens : List Token} {s : Stmt} : StmtIn tokens s → s.All Node.Plain
  | .varDecl _ _ _ hType _ => ⟨rfl, hType.plain, by simp⟩
  | .varDeclTo _ _ _ hType _ hValue _ => ⟨rfl, hType.plain, by simpa using hValue.plain⟩
  | .constDecl _ _ _ hValue _ => ⟨rfl, hValue.plain⟩
  | .echo _ hValue _ => ⟨rfl, hValue.plain⟩
  | .branch hBranch => hBranch.plain
  | .loop _ hCondition hBody => Stmt.all_loop.mpr ⟨rfl, hCondition.plain, hBody.plain⟩
  | .fnDecl _ _ hParameters _ hType hBody =>
    Stmt.all_fnDecl.mpr ⟨rfl, hParameters.forall (P := (·.All Node.Plain)) ParameterIn.plain,
      hType.plain, hBody.plain⟩
  | .ret _ hValue _ => ⟨rfl, hValue.plain⟩
  | .assign _ _ hValue _ => ⟨rfl, rfl, hValue.plain⟩

theorem BranchIn.plain {tokens : List Token} {s : Stmt} : BranchIn tokens s → s.All Node.Plain
  | .branch _ hCondition hThen hElse =>
    Stmt.all_branch.mpr ⟨rfl, hCondition.plain, hThen.plain, hElse.plain⟩

theorem ElseIn.plain {line : UInt32} {tokens : List Token} {block : Block} :
    ElseIn line tokens block → Stmt.AllIn Node.Plain block.body
  | .missing => trivial
  | .block _ hBlock => hBlock.plain
  | .branch _ hBranch => ⟨hBranch.plain, trivial⟩

theorem BlockIn.plain {tokens : List Token} {block : Block} :
    BlockIn tokens block → Stmt.AllIn Node.Plain block.body
  | .block _ hBody _ => hBody.plain

theorem StmtsIn.plain {tokens : List Token} {stmts : List Stmt} :
    StmtsIn tokens stmts → Stmt.AllIn Node.Plain stmts
  | .nil => trivial
  | .cons hFirst hOthers => ⟨hFirst.plain, hOthers.plain⟩

end

end Jingle.Grammar

namespace Jingle.Syntax

open Grammar Typing

/-! ## Checking expressions -/

theorem TypeName.check_coherent (typeName : TypeName) :
    (Node.typeName typeName.check.1).Coherent :=
  .inr typeName.check_ty

mutual

theorem Expr.check_coherent (state : State) : ∀ e : Expr, (e.check state).1.All Node.Coherent
  | .literal .. => trivial
  | .binary _ left right _ =>
    ⟨Verdict.ofBinary_ty .., left.check_coherent state, right.check_coherent state⟩
  | .unary _ operand _ => ⟨Verdict.ofUnary_ty .., operand.check_coherent state⟩
  | .symbol .. => ⟨rfl, trivial⟩
  | .call _ arguments _ => ⟨trivial, Expr.checkAll_coherent state arguments⟩

theorem Expr.checkAll_coherent (state : State) :
    ∀ exprs : List Expr, Expr.AllIn Node.Coherent (Expr.checkAll state exprs).1
  | [] => trivial
  | e :: exprs => ⟨e.check_coherent state, Expr.checkAll_coherent state exprs⟩

end

theorem Expr.checkOption_coherent (state : State) (value : Option Expr) :
    ∀ e ∈ (Expr.checkOption state value).1, e.All Node.Coherent := by
  cases value with
  | none => simp [Expr.checkOption]
  | some e => simpa [Expr.checkOption] using e.check_coherent state

theorem Parameter.checkAll_coherent (parameters : List Parameter) :
    ∀ p ∈ (Parameter.checkAll parameters).1, p.All Node.Coherent := by
  induction parameters with
  | nil => simp [Parameter.checkAll]
  | cons parameter parameters ih =>
    simp only [Parameter.checkAll, List.forall_mem_cons]
    exact ⟨⟨rfl, parameter.typeName.check_coherent⟩, ih⟩

/-! ## Checking statements -/

namespace Stmt

theorem checkVar_coherent (state : State) (name : String) {typeName : TypeName}
    {value : Option Expr} (info : Info) (hType : (Node.typeName typeName).Plain)
    (hValue : ∀ e ∈ value, e.All Node.Plain) :
    (checkVar state name typeName value info).1.All Node.Coherent := by
  cases hObstacle : state.scopes.obstacle? name with
  | some violation =>
    rw [checkVar_of_taken typeName value info hObstacle]
    exact ⟨coherent_of_ty_eq_none rfl, .inl hType,
      fun e hMem => Expr.coherent_of_plain (hValue e hMem)⟩
  | none =>
    rw [checkVar_of_free typeName value info hObstacle]
    refine ⟨fun ty hTy => ?_, typeName.check_coherent, Expr.checkOption_coherent state value⟩
    obtain ⟨hDeclared, hAssigned⟩ := Verdict.ofDeclaration_ty_eq_some.mp hTy
    refine ⟨typeName.check_ty.trans hDeclared, fun e hMem => hAssigned _ ?_⟩
    exact Option.mem_map_of_mem _ hMem

theorem checkConst_coherent (state : State) (name : String) {value : Expr} (info : Info)
    (hValue : value.All Node.Plain) :
    (checkConst state name value info).1.All Node.Coherent := by
  cases hObstacle : state.scopes.obstacle? name with
  | some violation =>
    rw [checkConst_of_taken value info hObstacle]
    exact ⟨coherent_of_ty_eq_none rfl, Expr.coherent_of_plain hValue⟩
  | none =>
    rw [checkConst_of_free value info hObstacle]
    exact ⟨fun ty hTy => hTy, value.check_coherent state⟩

theorem checkAssign_coherent (state : State) (target : Location) (value : Expr) (info : Info) :
    (checkAssign state target value info).1.All Node.Coherent := by
  refine ⟨fun ty hTy => ?_, trivial, value.check_coherent state⟩
  obtain ⟨hTarget, hValue⟩ := Verdict.ofAssignment_ty_eq_some hTy
  exact ⟨(Verdict.ofLocation_ty ..).trans hTarget, hValue⟩

mutual

theorem check_coherent (state : State) (returns : Option Returns) :
    ∀ {s : Stmt}, s.All Node.Plain → (s.check state returns).tree.All Node.Coherent
  | .varDecl name _ _ info, ⟨_, hType, hValue⟩ => checkVar_coherent state name info hType hValue
  | .constDecl name _ info, ⟨_, hValue⟩ => checkConst_coherent state name info hValue
  | .echo value _, _ => ⟨trivial, value.check_coherent state⟩
  | .branch condition ⟨_, thenBody⟩ ⟨_, elseBody⟩ _, ⟨_, _, hThen, hElse⟩ => by
    rw [check]
    dsimp only
    split
    · exact ⟨trivial, condition.check_coherent state, checkAll_coherent _ _ hThen,
        checkAll_coherent _ _ hElse⟩
    · exact ⟨trivial, condition.check_coherent state, coherentIn_of_plain hThen,
        coherentIn_of_plain hElse⟩
  | .loop condition ⟨_, body⟩ _, ⟨_, _, hBody⟩ => by
    rw [check]
    dsimp only
    split
    · exact ⟨trivial, condition.check_coherent state, checkAll_coherent _ _ hBody⟩
    · exact ⟨trivial, condition.check_coherent state, coherentIn_of_plain hBody⟩
  | .assign target value info, _ => checkAssign_coherent state target value info
  | .fnDecl name parameters typeName ⟨_, body⟩ line, ⟨_, _, _, hBody⟩ => by
    rw [check]
    dsimp only [checkHead]
    split
    · exact ⟨trivial, Parameter.checkAll_coherent parameters, typeName.check_coherent,
        coherentIn_of_plain hBody⟩
    · exact ⟨trivial, Parameter.checkAll_coherent parameters, typeName.check_coherent,
        checkAll_coherent _ _ hBody⟩
  | .ret value info, _ =>
    ⟨fun _ hTy => Verdict.eq_some_of_ofReturn hTy, value.check_coherent state⟩

theorem checkAll_coherent (state : State) (returns : Option Returns) :
    ∀ {stmts : List Stmt}, AllIn Node.Plain stmts →
      AllIn Node.Coherent (checkAll state returns stmts).tree
  | [], _ => trivial
  | _ :: _, ⟨hFirst, hOthers⟩ =>
    ⟨check_coherent state returns hFirst, checkAll_coherent _ _ hOthers⟩

end

end Stmt

/-! ## Checking programs -/

/-- A program that is read from tokens has no types before checking, and after checking all types in
it agree with each other, whether the program is correct or not. -/
theorem Block.check_coherent_of_ofTokens {tokens : List Token} {block : Block}
    (hRead : Block.ofTokens tokens = .ok block) :
    (∀ entry ∈ block.outline, entry.2.ty = none) ∧
      ∀ entry ∈ block.check.1.outline, entry.2.Coherent := by
  obtain ⟨passed, c', -, -, hIn⟩ := Block.ofTokens_sound hRead
  cases hIn with
  | program hBody =>
    have hPlain := hBody.plain
    constructor
    · exact (Stmt.forall_outlines_iff Node.Plain 0 _).mpr hPlain
    · exact (Stmt.forall_outlines_iff Node.Coherent 0 _).mpr (Stmt.checkAll_coherent _ _ hPlain)

/-- The incorrect program `const c = ! true; var x: int = c;`. -/
theorem Block.check_coherent_mismatch :
    let token (kind : Token.Kind) (value : String) : Token := ⟨kind, value, 0, 0, 1⟩
    let negation : Expr := .unary .not (.literal (.bool true) ⟨1, none⟩) ⟨1, none⟩
    let block : Block :=
      ⟨1, [.constDecl "c" negation ⟨1, none⟩,
        .varDecl "x" ⟨⟨1, none⟩, "int"⟩ (some (.symbol ⟨⟨1, none⟩, "c"⟩ ⟨1, none⟩)) ⟨1, none⟩]⟩
    let tokens : List Token :=
      [token .constWord "const", token .identifier "c", token .assign "=", token .bang "!",
        token .bool "true", token .semicolon ";", token .varWord "var", token .identifier "x",
        token .colon ":", token .identifier "int", token .assign "=", token .identifier "c",
        token .semicolon ";", .endAt 0 1]
    Block.ofTokens tokens = .ok block ∧ (∀ entry ∈ block.outline, entry.2.ty = none) ∧
      ∀ entry ∈ block.check.1.outline, entry.2.Coherent := by
  intro token negation block tokens
  have hRead : Block.ofTokens tokens = .ok block := rfl
  exact ⟨hRead, Block.check_coherent_of_ofTokens hRead⟩

end Jingle.Syntax
