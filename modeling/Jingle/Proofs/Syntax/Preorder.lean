import Jingle.Syntax.Outline

/-!
# Outlines as listings of trees

The address of a node says how it is reached from the top of a program: the number of a statement,
the number of one of its children, and so on. An outline lists the nodes in the order of their
addresses, and a node is as deep as its address is long. All else follows from the order of the
addresses: where the node above an entry stands, how depths change, and that the part of the tree
below a node is listed in one run.

* `Node.children` gives the nodes directly below a node, and `Node.outline_eq` says that an outline
  goes on with them.
* `Block.at?` finds the node at an address.
* `Address.Before.isPrefix_of_between` says that no other node comes between those below a node.
* `Addressed` relates an outline to the addresses of its entries.
* `Block.Listed` says what it means to list a program, and `Block.outline_listed` that outlines do.
-/

namespace Jingle.Syntax

/-! ## Children -/

namespace Node

/-- The nodes directly below a node, in the order of the source. Blocks are no nodes: their
statements are directly below the statement that the block belongs to. -/
def children : Node → List Node
  | stmt (.varDecl _ a value _) => typeName a :: (value.map expr).toList
  | stmt (.constDecl _ value _) | stmt (.echo value _) | stmt (.ret value _) => [expr value]
  | stmt (.branch condition thenBody elseBody _) =>
    expr condition :: (thenBody.body.map stmt ++ elseBody.body.map stmt)
  | stmt (.loop condition body _) => expr condition :: body.body.map stmt
  | stmt (.assign target value _) => [location target, expr value]
  | stmt (.fnDecl _ parameters returns body _) =>
    parameters.map parameter ++ typeName returns :: body.body.map stmt
  | expr (.literal ..) => []
  | expr (.binary _ left right _) => [expr left, expr right]
  | expr (.unary _ operand _) => [expr operand]
  | expr (.symbol l _) => [location l]
  | expr (.call _ arguments _) => arguments.map expr
  | parameter p => [typeName p.typeName]
  | location _ | typeName _ => []

/-- The outline of the part of a tree below a node and the node itself. -/
def outline (depth : Nat) : Node → Outline
  | stmt s => s.outline depth
  | expr e => e.outline depth
  | parameter p => p.outline depth
  | node@(location _) | node@(typeName _) => [(depth, node)]

end Node

theorem Expr.outlines_eq (depth : Nat) (exprs : List Expr) :
    Expr.outlines depth exprs = (exprs.map .expr).flatMap (Node.outline depth) := by
  induction exprs with
  | nil => rfl
  | cons e exprs ih =>
    rw [Expr.outlines, ih]
    rfl

theorem Stmt.outlines_eq (depth : Nat) (stmts : List Stmt) :
    Stmt.outlines depth stmts = (stmts.map .stmt).flatMap (Node.outline depth) := by
  induction stmts with
  | nil => rfl
  | cons s stmts ih =>
    rw [Stmt.outlines, ih]
    rfl

theorem Parameter.outlines_eq (depth : Nat) (parameters : List Parameter) :
    parameters.flatMap (Parameter.outline depth) =
      (parameters.map .parameter).flatMap (Node.outline depth) := by
  rw [List.flatMap_map]
  rfl

/-- An outline lists a node and then the outlines of its children, one level deeper. -/
theorem Node.outline_eq (depth : Nat) (node : Node) :
    node.outline depth = (depth, node) :: node.children.flatMap (Node.outline (depth + 1)) := by
  cases node with
  | location | typeName | parameter => rfl
  | expr e =>
    cases e with
    | literal | symbol => rfl
    | binary | unary => simp [Node.outline, children, Expr.outline]
    | call => simp [Node.outline, children, Expr.outline, Expr.outlines_eq]
  | stmt s =>
    cases s with
    | varDecl _ _ value _ => cases value <;> simp [Node.outline, children, Stmt.outline]
    | constDecl | echo | assign | ret => simp [Node.outline, children, Stmt.outline]
    | branch _ thenBody elseBody _ =>
      cases thenBody
      cases elseBody
      simp [Node.outline, children, Stmt.outline, Stmt.outlines_eq]
    | loop _ body _ =>
      cases body
      simp [Node.outline, children, Stmt.outline, Stmt.outlines_eq]
    | fnDecl _ _ _ body _ =>
      cases body
      simp [Node.outline, children, Stmt.outline, Stmt.outlines_eq, Parameter.outlines_eq]

/-- What holds of a node if it holds of its children holds of all nodes. -/
theorem Node.induct {P : Node → Prop}
    (h : ∀ node : Node, (∀ child ∈ node.children, P child) → P node) (node : Node) : P node := by
  have hAll (n : Nat) :
      ∀ (depth : Nat) (node : Node), (node.outline depth).length ≤ n → P node := by
    induction n with
    | zero =>
      intro depth node hLength
      rw [node.outline_eq] at hLength
      cases hLength
    | succ n ih =>
      intro depth node hLength
      refine h node fun child hChild => ih (depth + 1) child ?_
      rw [node.outline_eq, List.length_cons, List.flatMap_def] at hLength
      have hMem : child.outline (depth + 1) ∈ node.children.map (Node.outline (depth + 1)) :=
        List.mem_map_of_mem hChild
      have hPart := (List.infix_of_mem_flatten hMem).length_le
      omega
  exact hAll _ 0 node (Nat.le_refl _)

/-! ## Addresses -/

/-- The numbers that lead to a node: that of a node to begin with, that of one of its children, and
so on. All of them are counted from zero. -/
abbrev Address := List Nat

namespace Node

/-- The node that is reached by going down to the child with the first number of the address, to the
child of this one with the second number, and so on. -/
def at? (node : Node) : Address → Option Node
  | [] => some node
  | n :: address => node.children[n]?.bind (·.at? address)

/-- The node at an address that begins with the number of one of the given nodes. -/
def among? (nodes : List Node) : Address → Option Node
  | [] => none
  | n :: address => nodes[n]?.bind (·.at? address)

theorem at?_concat (node : Node) (address : Address) (n : Nat) :
    node.at? (address ++ [n]) = (node.at? address).bind (·.children[n]?) := by
  induction address generalizing node with
  | nil => simp [at?]
  | cons m address ih =>
    rw [List.cons_append, at?, at?, Option.bind_assoc]
    simp only [ih]

theorem among?_concat {address : Address} (hAddress : address ≠ []) (nodes : List Node) (n : Nat) :
    among? nodes (address ++ [n]) = (among? nodes address).bind (·.children[n]?) := by
  cases address with
  | nil => exact absurd rfl hAddress
  | cons m address =>
    rw [List.cons_append, among?, among?, Option.bind_assoc]
    simp only [at?_concat]

end Node

/-- The node at an address of a program. The address of a statement of the program itself is its
number. -/
def Block.at? (block : Block) : Address → Option Node :=
  Node.among? (block.body.map .stmt)

/-- The first address leads to a node above the second one, or to an earlier one where they part. -/
abbrev Address.Before : Address → Address → Prop :=
  List.Lex (· < ·)

namespace Address.Before

variable {address first second : Address}

theorem not_of_isPrefix (h : address <+: second) : ¬ second.Before address := by
  intro hBefore
  induction hBefore with
  | nil => cases List.prefix_nil.mp h
  | rel hLess =>
    obtain ⟨rfl, -⟩ := List.cons_prefix_cons.mp h
    exact Nat.lt_irrefl _ hLess
  | cons _ ih => exact ih (List.cons_prefix_cons.mp h).2

/-- What comes between a node and a node below it is below it too. -/
theorem isPrefix_of_between (hFirst : address.Before first) (hSecond : first.Before second)
    (h : address <+: second) : address <+: first := by
  induction hFirst generalizing second with
  | nil => exact List.nil_prefix
  | rel hLess =>
    cases hSecond with
    | rel hMore =>
      obtain ⟨rfl, -⟩ := List.cons_prefix_cons.mp h
      exact absurd hMore (Nat.lt_asymm hLess)
    | cons _ =>
      obtain ⟨rfl, -⟩ := List.cons_prefix_cons.mp h
      exact absurd hLess (Nat.lt_irrefl _)
  | cons _ ih =>
    cases hSecond with
    | rel hMore =>
      obtain ⟨rfl, -⟩ := List.cons_prefix_cons.mp h
      exact absurd hMore (Nat.lt_irrefl _)
    | cons hRest =>
      exact List.cons_prefix_cons.mpr ⟨rfl, ih hRest (List.cons_prefix_cons.mp h).2⟩

theorem ne (h : first.Before second) : first ≠ second := by
  rintro rfl
  exact not_of_isPrefix List.prefix_rfl h

end Address.Before

/-! ## Outlines and addresses -/

/-- The addresses are those of all nodes, in their order, and the outline lists the nodes at these
addresses. The length of an address tells the depth of its node. -/
structure Addressed (find : Address → Option Node) (above : Nat) (outline : Outline)
    (addresses : List Address) : Prop where
  entries : outline.map (fun entry => some (entry.1 + 1, entry.2)) =
    addresses.map fun address => (find address).map (above + address.length, ·)
  ordered : addresses.Pairwise Address.Before
  complete : ∀ address, address ∈ addresses ↔ ∃ node, find address = some node

namespace Addressed

/-- The addresses of nodes in a row are those of each of them after its number. -/
theorem among {nodes : List Node} {depth : Nat} {addresses : Node → List Address}
    (h : ∀ node ∈ nodes,
      Addressed node.at? (depth + 1) (node.outline depth) (addresses node)) :
    Addressed (Node.among? nodes) depth (nodes.flatMap (Node.outline depth))
      (nodes.zipIdx.flatMap fun place => (addresses place.1).map (place.2 :: ·)) := by
  have hNode {place : Node × Nat} (hPlace : place ∈ nodes.zipIdx) :
      nodes[place.2]? = some place.1 :=
    List.mem_zipIdx_iff_getElem?.mp hPlace
  have hPart {place : Node × Nat} (hPlace : place ∈ nodes.zipIdx) :
      Addressed place.1.at? (depth + 1) (place.1.outline depth) (addresses place.1) :=
    h place.1 (List.mem_of_getElem? (hNode hPlace))
  constructor
  · rw [List.map_flatMap, List.map_flatMap]
    conv => lhs; rw [← List.zipIdx_map_fst 0 nodes, List.flatMap_map]
    refine congrArg List.flatten (List.map_congr_left fun place hPlace => ?_)
    rw [(hPart hPlace).entries, List.map_map]
    refine List.map_congr_left fun address _ => ?_
    rw [Function.comp_apply, Node.among?, hNode hPlace, Option.bind_some, List.length_cons,
      Nat.add_right_comm, Nat.add_assoc]
  · rw [List.pairwise_flatMap]
    constructor
    · intro place hPlace
      exact (hPart hPlace).ordered.map _ fun _ _ hLess => .cons hLess
    · have hNumbers : (nodes.zipIdx.map Prod.snd).Pairwise (· < ·) := by
        rw [List.zipIdx_map_snd]
        exact List.pairwise_lt_range'
      refine (List.pairwise_map.mp hNumbers).imp ?_
      intro place place' hLess address hAddress address' hAddress'
      obtain ⟨_, -, rfl⟩ := List.mem_map.mp hAddress
      obtain ⟨_, -, rfl⟩ := List.mem_map.mp hAddress'
      exact .rel hLess
  · intro address
    rw [List.mem_flatMap]
    constructor
    · rintro ⟨place, hPlace, hMem⟩
      obtain ⟨address, hAddress, rfl⟩ := List.mem_map.mp hMem
      have hFound := ((hPart hPlace).complete address).mp hAddress
      rwa [Node.among?, hNode hPlace, Option.bind_some]
    · rintro ⟨found, hFound⟩
      cases address with
      | nil => cases hFound
      | cons n address =>
        obtain ⟨node, hNode, hFound⟩ := Option.bind_eq_some_iff.mp hFound
        have hPlace : (node, n) ∈ nodes.zipIdx := List.mem_zipIdx_iff_getElem?.mpr hNode
        have hAddress := ((hPart hPlace).complete address).mpr ⟨found, hFound⟩
        exact ⟨(node, n), hPlace, List.mem_map.mpr ⟨_, hAddress, rfl⟩⟩

/-- A node is at the empty address, before its children. -/
theorem node {node : Node} {depth : Nat} {addresses : List Address}
    (h : Addressed (Node.among? node.children) (depth + 1)
      (node.children.flatMap (Node.outline (depth + 1))) addresses) :
    Addressed node.at? (depth + 1) (node.outline depth) ([] :: addresses) := by
  have hCons {address : Address} (hMem : address ∈ addresses) :
      ∃ n rest, address = n :: rest := by
    obtain ⟨found, hFound⟩ := (h.complete address).mp hMem
    cases address with
    | nil => cases hFound
    | cons n rest => exact ⟨n, rest, rfl⟩
  constructor
  · rw [node.outline_eq, List.map_cons, List.map_cons, h.entries]
    refine congrArg _ (List.map_congr_left fun address hMem => ?_)
    obtain ⟨n, rest, rfl⟩ := hCons hMem
    rfl
  · refine .cons (fun address hMem => ?_) h.ordered
    obtain ⟨n, rest, rfl⟩ := hCons hMem
    exact .nil
  · intro address
    cases address with
    | nil => exact iff_of_true List.mem_cons_self ⟨node, rfl⟩
    | cons n rest =>
      have hTail : n :: rest ∈ [] :: addresses ↔ n :: rest ∈ addresses := by simp
      exact hTail.trans (h.complete (n :: rest))

end Addressed

theorem Node.exists_addressed (node : Node) :
    ∀ depth, ∃ addresses, Addressed node.at? (depth + 1) (node.outline depth) addresses := by
  induction node using Node.induct with
  | h node ih =>
    intro depth
    have hChildren : ∀ child, ∃ addresses, child ∈ node.children →
        Addressed child.at? (depth + 1 + 1) (child.outline (depth + 1)) addresses := by
      intro child
      by_cases hChild : child ∈ node.children
      · obtain ⟨addresses, h⟩ := ih child hChild (depth + 1)
        exact ⟨addresses, fun _ => h⟩
      · exact ⟨[], fun hMem => absurd hMem hChild⟩
    obtain ⟨addresses, h⟩ := Classical.skolem.mp hChildren
    exact ⟨_, (Addressed.among h).node⟩

theorem Block.exists_addressed (block : Block) :
    ∃ addresses, Addressed block.at? 0 block.outline addresses := by
  obtain ⟨addresses, h⟩ := Classical.skolem.mp fun node : Node => node.exists_addressed 0
  rw [Block.outline, Stmt.outlines_eq]
  exact ⟨_, Addressed.among fun node _ => h node⟩

/-! ## Places in outlines -/

/-- In a list that leaves a class for good where it leaves it, the class makes up the beginning. -/
theorem exists_initial_run {α : Type} {p : α → Prop} {list : List α}
    (h : list.Pairwise fun a b => p b → p a) :
    ∃ n, ∀ (k : Nat) (a : α), list[k]? = some a → (p a ↔ k < n) := by
  induction list with
  | nil => exact ⟨0, fun k a ha => by cases ha⟩
  | cons first list ih =>
    obtain ⟨hFirst, hRest⟩ := List.pairwise_cons.mp h
    obtain ⟨n, hRun⟩ := ih hRest
    by_cases hIn : p first
    · refine ⟨n + 1, fun k a ha => ?_⟩
      cases k with
      | zero =>
        obtain rfl := Option.some.inj ha
        exact iff_of_true hIn (Nat.succ_pos n)
      | succ k => exact (hRun k a ha).trans Nat.succ_lt_succ_iff.symm
    · refine ⟨0, fun k a ha => iff_of_false ?_ (Nat.not_lt_zero k)⟩
      cases k with
      | zero =>
        obtain rfl := Option.some.inj ha
        exact hIn
      | succ k =>
        intro hLater
        exact hIn (hFirst a (List.mem_of_getElem? ha) hLater)

namespace Addressed

variable {find : Address → Option Node} {above : Nat} {outline : Outline}
  {addresses : List Address} {i k : Nat} {address other : Address}

theorem entry_iff (h : Addressed find above outline addresses) {depth : Nat} {node : Node} :
    outline[i]? = some (depth, node) ↔
      ∃ address, addresses[i]? = some address ∧ above + address.length = depth + 1 ∧
        find address = some node := by
  have hAt := congrArg (·[i]?) h.entries
  simp only [List.getElem?_map] at hAt
  constructor
  · intro hEntry
    rw [hEntry, Option.map_some] at hAt
    obtain ⟨address, hAddress, hNode⟩ := Option.map_eq_some_iff.mp hAt.symm
    obtain ⟨found, hFound, hEq⟩ := Option.map_eq_some_iff.mp hNode
    obtain ⟨hDepth, hSame⟩ := Prod.mk.inj hEq
    exact ⟨address, hAddress, hDepth, hFound.trans (congrArg some hSame)⟩
  · rintro ⟨address, hAddress, hDepth, hFound⟩
    rw [hAddress, Option.map_some, hFound, Option.map_some, hDepth] at hAt
    obtain ⟨entry, hEntry, hEq⟩ := Option.map_eq_some_iff.mp hAt
    obtain ⟨hSame, hNode⟩ := Prod.mk.inj (Option.some.inj hEq)
    rw [hEntry, ← Nat.succ.inj hSame, ← hNode]

theorem before_of_lt (h : Addressed find above outline addresses)
    (hFirst : addresses[i]? = some address) (hSecond : addresses[k]? = some other) (hLess : i < k) :
    address.Before other := by
  obtain ⟨hi, rfl⟩ := List.getElem?_eq_some_iff.mp hFirst
  obtain ⟨hk, rfl⟩ := List.getElem?_eq_some_iff.mp hSecond
  exact List.pairwise_iff_getElem.mp h.ordered i k hi hk hLess

/-- A node is not listed before the nodes above it. -/
theorem le_of_isPrefix (h : Addressed find above outline addresses)
    (hFirst : addresses[i]? = some address) (hSecond : addresses[k]? = some other)
    (hPrefix : address <+: other) : i ≤ k := by
  refine Nat.le_of_not_lt fun hLess => ?_
  exact Address.Before.not_of_isPrefix hPrefix (h.before_of_lt hSecond hFirst hLess)

/-- Every address stands at one place. -/
theorem exists_place (h : Addressed find above outline addresses) {node : Node}
    (hFound : find address = some node) :
    ∃ i : Nat, addresses[i]? = some address ∧
      ∀ k : Nat, addresses[k]? = some address → k = i := by
  obtain ⟨i, hi⟩ := List.mem_iff_getElem?.mp ((h.complete address).mpr ⟨node, hFound⟩)
  refine ⟨i, hi, fun k hk => ?_⟩
  have hLe := h.le_of_isPrefix hi hk List.prefix_rfl
  have hGe := h.le_of_isPrefix hk hi List.prefix_rfl
  omega

/-- The nodes below a node are listed behind it in one run. -/
theorem exists_run (h : Addressed find above outline addresses)
    (hAddress : addresses[i]? = some address) :
    ∃ n, ∀ (k : Nat) (other : Address), addresses[k]? = some other →
      (address <+: other ↔ i ≤ k ∧ k < i + n) := by
  have hDrop : addresses.drop i = address :: addresses.drop (i + 1) := by
    obtain ⟨hi, rfl⟩ := List.getElem?_eq_some_iff.mp hAddress
    exact List.drop_eq_getElem_cons hi
  have hOrdered : (address :: addresses.drop (i + 1)).Pairwise Address.Before :=
    hDrop ▸ h.ordered.drop
  have hConvex : (address :: addresses.drop (i + 1)).Pairwise
      fun first second => address <+: second → address <+: first := by
    obtain ⟨hFirst, hRest⟩ := List.pairwise_cons.mp hOrdered
    refine .cons (fun _ _ _ => List.prefix_rfl) (hRest.imp_of_mem ?_)
    intro first second hMem _ hBetween hPrefix
    exact Address.Before.isPrefix_of_between (hFirst first hMem) hBetween hPrefix
  obtain ⟨n, hRun⟩ := exists_initial_run hConvex
  refine ⟨n, fun k other hOther => ?_⟩
  have hAt (hLe : i ≤ k) : (address :: addresses.drop (i + 1))[k - i]? = some other := by
    rw [← hDrop, List.getElem?_drop, Nat.add_sub_cancel' hLe, hOther]
  constructor
  · intro hPrefix
    have hLe := h.le_of_isPrefix hAddress hOther hPrefix
    have hLess := (hRun (k - i) other (hAt hLe)).mp hPrefix
    omega
  · rintro ⟨hLe, hLess⟩
    exact (hRun (k - i) other (hAt hLe)).mpr (by omega)

end Addressed

/-! ## Listings -/

/-- The place `j` comes before the place `i`, and all entries between them are deeper than the given
depth. -/
def Outline.Nearest (outline : Outline) (i j depth : Nat) : Prop :=
  j < i ∧ ∀ (k : Nat) (entry : Nat × Node), j < k → k < i → outline[k]? = some entry →
    depth < entry.1

/-- The outline lists the nodes of a program in the order of their addresses. -/
structure Block.Listed (block : Block) (outline : Outline) (addresses : List Address) :
    Prop where
  /-- An entry is the node at its address, as deep as the address is long. -/
  entry (i depth : Nat) (node : Node) : outline[i]? = some (depth, node) ↔
    ∃ address, addresses[i]? = some address ∧ address.length = depth + 1 ∧
      block.at? address = some node
  /-- Every node of the program has one place, and there are no other places. -/
  once (address : Address) : (∃ node, block.at? address = some node) ↔
    ∃ i : Nat, addresses[i]? = some address ∧ ∀ k : Nat, addresses[k]? = some address → k = i
  /-- A node comes before its children, and these come in their order. -/
  ordered : addresses.Pairwise Address.Before
  /-- The entries at depth zero are the statements of the program itself. -/
  top (i depth : Nat) (node : Node) : outline[i]? = some (depth, node) →
    (depth = 0 ↔ ∃ n s, addresses[i]? = some [n] ∧ block.body[n]? = some s ∧ node = .stmt s)
  /-- The node above an entry is the nearest one before it that is less deep. -/
  parent (i depth : Nat) (node : Node) : outline[i]? = some (depth + 1, node) →
    ∃ j parent address n, outline.Nearest i j depth ∧ outline[j]? = some (depth, parent) ∧
      addresses[j]? = some address ∧ addresses[i]? = some (address ++ [n]) ∧
      parent.children[n]? = some node
  /-- The depth rises by at most one. -/
  rise (i : Nat) (entry next : Nat × Node) : outline[i]? = some entry →
    outline[i + 1]? = some next → next.1 ≤ entry.1 + 1
  /-- A node and the nodes below it are listed in one run. -/
  together (i : Nat) (address : Address) : addresses[i]? = some address →
    ∃ n, ∀ (k : Nat) (other : Address), addresses[k]? = some other →
      (address <+: other ↔ i ≤ k ∧ k < i + n)

section

variable {block : Block} {outline : Outline} {addresses : List Address} {i depth : Nat}
  {node : Node}

theorem Block.at?_singleton {n : Nat} :
    block.at? [n] = some node ↔ ∃ s, block.body[n]? = some s ∧ node = .stmt s := by
  have hAt : block.at? [n] = block.body[n]?.map Node.stmt := by
    rw [Block.at?, Node.among?, List.getElem?_map]
    cases block.body[n]? <;> rfl
  rw [hAt, Option.map_eq_some_iff]
  simp only [@eq_comm _ node]

namespace Addressed

theorem exists_parent (h : Addressed block.at? 0 outline addresses)
    (hEntry : outline[i]? = some (depth + 1, node)) :
    ∃ j parent address n, outline.Nearest i j depth ∧ outline[j]? = some (depth, parent) ∧
      addresses[j]? = some address ∧ addresses[i]? = some (address ++ [n]) ∧
      parent.children[n]? = some node := by
  obtain ⟨whole, hWhole, hDepth, hFound⟩ := h.entry_iff.mp hEntry
  have hNe : whole ≠ [] := by
    rintro rfl
    cases hDepth
  -- The address without its last number is the address of the node above.
  obtain ⟨address, n, rfl⟩ : ∃ address n, whole = address ++ [n] :=
    ⟨_, _, (List.dropLast_concat_getLast hNe).symm⟩
  have hLength : address.length = depth + 1 := by
    rw [List.length_append, List.length_singleton] at hDepth
    omega
  have hAddress : address ≠ [] := List.ne_nil_of_length_eq_add_one hLength
  rw [Block.at?, Node.among?_concat hAddress] at hFound
  obtain ⟨parent, hParent, hChild⟩ := Option.bind_eq_some_iff.mp hFound
  obtain ⟨j, hj, -⟩ := h.exists_place hParent
  have hPrefix : address <+: address ++ [n] := List.prefix_append _ _
  have hLe := h.le_of_isPrefix hj hWhole hPrefix
  have hLess : j < i := by
    refine Nat.lt_of_le_of_ne hLe fun hSame => ?_
    subst hSame
    simpa using hj.symm.trans hWhole
  refine ⟨j, parent, address, n, ⟨hLess, ?_⟩, ?_, hj, hWhole, hChild⟩
  · intro k entry hAfter hBefore hBetween
    obtain ⟨other, hOther, hDeep, -⟩ := h.entry_iff.mp hBetween
    have hFirst := h.before_of_lt hj hOther hAfter
    have hBelow := hFirst.isPrefix_of_between (h.before_of_lt hOther hWhole hBefore) hPrefix
    have hLonger : address.length < other.length :=
      Nat.lt_of_le_of_ne hBelow.length_le fun hSame => hFirst.ne (hBelow.eq_of_length hSame)
    omega
  · exact h.entry_iff.mpr ⟨address, hj, by omega, hParent⟩

theorem rise_le (h : Addressed block.at? 0 outline addresses) {entry next : Nat × Node}
    (hEntry : outline[i]? = some entry) (hNext : outline[i + 1]? = some next) :
    next.1 ≤ entry.1 + 1 := by
  obtain ⟨depth, node⟩ := next
  cases depth with
  | zero => exact Nat.zero_le _
  | succ depth =>
    -- If the entry before is not the node above, it is deeper than that node.
    obtain ⟨j, parent, _, _, ⟨hLess, hBetween⟩, hParent, -⟩ := h.exists_parent hNext
    rcases Nat.lt_or_eq_of_le (Nat.le_of_lt_succ hLess) with hEarlier | rfl
    · have hDeeper := hBetween i entry hEarlier (Nat.lt_succ_self i) hEntry
      omega
    · obtain rfl := Option.some.inj (hParent.symm.trans hEntry)
      exact Nat.le_refl _

theorem listed (h : Addressed block.at? 0 outline addresses) : block.Listed outline addresses where
  entry i depth node := by
    rw [h.entry_iff]
    simp only [Nat.zero_add]
  once address := by
    constructor
    · rintro ⟨node, hFound⟩
      exact h.exists_place hFound
    · rintro ⟨i, hPlace, -⟩
      exact (h.complete address).mp (List.mem_of_getElem? hPlace)
  ordered := h.ordered
  top i depth node hEntry := by
    obtain ⟨address, hAddress, hDepth, hFound⟩ := h.entry_iff.mp hEntry
    rw [Nat.zero_add] at hDepth
    constructor
    · rintro rfl
      obtain ⟨n, rfl⟩ := List.length_eq_one_iff.mp hDepth
      obtain ⟨s, hStmt, hNode⟩ := Block.at?_singleton.mp hFound
      exact ⟨n, s, hAddress, hStmt, hNode⟩
    · rintro ⟨n, s, hSingle, -⟩
      obtain rfl := Option.some.inj (hAddress.symm.trans hSingle)
      exact (Nat.succ.inj hDepth).symm
  parent i depth node hEntry := h.exists_parent hEntry
  rise i entry next hEntry hNext := h.rise_le hEntry hNext
  together i address hAddress := h.exists_run hAddress

end Addressed

end

/-- An outline lists the nodes of a program, and the outline of two programs in a row is that of the
first one and then that of the second one. -/
theorem Block.outline_listed :
    (∀ block : Block, ∃ addresses, block.Listed block.outline addresses) ∧
      ∀ (first second : Block) (line : UInt32),
        (Block.mk line (first.body ++ second.body)).outline = first.outline ++ second.outline := by
  constructor
  · intro block
    obtain ⟨addresses, h⟩ := block.exists_addressed
    exact ⟨addresses, h.listed⟩
  · intro first second line
    simp only [Block.outline, Stmt.outlines_eq, List.map_append, List.flatMap_append]

end Jingle.Syntax
