import TemplateLint.Proofs.Layout.Piece

namespace TemplateLint.Tree

/-- The nodes in a node, itself the first of them. -/
def Node.nodes : Node → List Node
  | .template t => t.nodes
  | .mustache m => m.nodes
  | .block b => b.nodes
  | .subExpression e => (Expr.subExpression e).nodes
  | .element e => e.nodes
  | .attribute a => a.nodes
  | .elementModifier m => m.nodes
  | n => [n]

def Piece.nodes : Piece → List Node
  | .node n => n.nodes
  | .pair p => p.value.nodes
  | .concat parts _ => parts.flatMap ConcatPart.nodes

theorem Expr.nodes_node (e : Expr) : e.node.nodes = e.nodes := by
  cases e <;> rfl

theorem Statement.nodes_node (s : Statement) : s.node.nodes = s.nodes := by
  cases s <;> rfl

theorem ConcatPart.nodes_node (p : ConcatPart) : p.node.nodes = p.nodes := by
  cases p <;> rfl

theorem Expr.nodesAll_eq (es : List Expr) : Expr.nodesAll es = es.flatMap Expr.nodes := by
  induction es with
  | nil => rfl
  | cons e es ih => rw [Expr.nodesAll, ih, List.flatMap_cons]

theorem HashPair.nodesAll_eq (ps : List HashPair) :
    HashPair.nodesAll ps = ps.flatMap fun p => p.value.nodes := by
  induction ps with
  | nil => rfl
  | cons p ps ih =>
    obtain ⟨key, value, span⟩ := p
    rw [HashPair.nodesAll, ih, List.flatMap_cons]

theorem Statement.nodesAll_eq (ss : List Statement) :
    Statement.nodesAll ss = (Statement.parts ss).flatMap Piece.nodes := by
  induction ss with
  | nil => rfl
  | cons s ss ih =>
    rw [Statement.nodesAll, ih, ← Statement.nodes_node]
    rfl

theorem Call.nodes_eq (c : Call) : c.nodes = c.parts.flatMap Piece.nodes := by
  obtain ⟨callee, params, hash⟩ := c
  simp only [Call.nodes, Call.parts, Expr.nodesAll_eq, HashPair.nodesAll_eq, List.flatMap_cons,
    List.flatMap_append, List.flatMap_map, Expr.nodes_node, Piece.nodes, List.append_assoc]

theorem AttrValue.nodes_eq (v : AttrValue) : v.nodes = v.parts.flatMap Piece.nodes := by
  cases v <;> simp [AttrValue.nodes, AttrValue.parts, Piece.nodes, Node.nodes]

theorem ElsePart.nodes_eq (e : ElsePart) : e.nodes = e.parts.flatMap Piece.nodes := by
  cases e with
  | absent => rfl
  | final elseSpan body =>
    obtain ⟨statements, span⟩ := body
    exact Statement.nodesAll_eq statements
  | chained segment => simp [ElsePart.nodes, ElsePart.parts, Piece.nodes, Node.nodes]

/-- A node comes before the nodes of its parts. -/
theorem Node.nodes_eq (n : Node) : n.nodes = n :: n.parts.flatMap Piece.nodes := by
  cases n with
  | template t => exact congrArg _ (Statement.nodesAll_eq t.body)
  | mustache m => exact congrArg _ (Call.nodes_eq m.call)
  | subExpression e =>
    obtain ⟨call, span⟩ := e
    exact congrArg _ (Call.nodes_eq call)
  | elementModifier m => exact congrArg _ (Call.nodes_eq m.call)
  | «attribute» a => exact congrArg _ (AttrValue.nodes_eq a.value)
  | block b =>
    obtain ⟨call, blockParams, openSpan, program, inverse, close, span⟩ := b
    obtain ⟨statements, range⟩ := program
    simp only [Node.nodes, Block.nodes, Body.nodes, Node.parts, Call.nodes_eq,
      Statement.nodesAll_eq, ElsePart.nodes_eq, List.flatMap_append, List.append_assoc]
  | element e =>
    obtain ⟨tag, tagSpan, attributes, modifiers, comments, params, children, single, opening, closing,
      span⟩ := e
    simp only [Node.nodes, Element.nodes, Element.openingNodes, Node.parts, Statement.nodesAll_eq,
      List.flatMap_append, List.flatMap_map, Piece.nodes]
    rw [List.map_eq_flatMap]
  | _ => rfl

/-- A piece that is no node has the nodes of its parts and none of its own. -/
theorem Piece.nodes_eq {p : Piece} (hp : ∀ n, p ≠ .node n) :
    p.nodes = p.parts.flatMap Piece.nodes := by
  cases p with
  | node n => exact absurd rfl (hp n)
  | pair p => simp [Piece.nodes, Piece.parts, Expr.nodes_node]
  | concat parts span =>
    simp only [Piece.nodes, Piece.parts, List.flatMap_map, ConcatPart.nodes_node]

/-- A piece has the nodes of its parts, behind itself when it is a node. -/
theorem Piece.nodes_cases (p : Piece) :
    (∃ n, p = .node n ∧ p.nodes = n :: p.parts.flatMap Piece.nodes) ∨
      p.nodes = p.parts.flatMap Piece.nodes := by
  cases p with
  | node n => exact .inl ⟨n, rfl, n.nodes_eq⟩
  | pair p => exact .inr (Piece.nodes_eq (by simp))
  | concat parts span => exact .inr (Piece.nodes_eq (by simp))

/-- The nodes in a piece are those in its parts, and the piece itself when it is one. -/
theorem Piece.mem_nodes {p : Piece} {n : Node} :
    n ∈ p.nodes ↔ p = .node n ∨ ∃ q ∈ p.parts, n ∈ q.nodes := by
  cases p with
  | node m => simp [Piece.nodes, Node.nodes_eq, Piece.parts, eq_comm]
  | pair p => simp [Piece.nodes_eq]
  | concat parts span => simp [Piece.nodes_eq]

/-- How often a piece can be taken apart at most. -/
def Piece.height : Piece → Nat
  | .node n => 2 * n.nodes.length
  | p => 2 * p.nodes.length + 1

theorem Piece.infix_nodes_parts {p q : Piece} (hq : q ∈ p.parts) :
    q.nodes <:+: p.parts.flatMap Piece.nodes := by
  obtain ⟨before, after, hsplit⟩ := List.append_of_mem hq
  rw [hsplit, List.flatMap_append, List.flatMap_cons, ← List.append_assoc]
  exact List.infix_append _ _ _

theorem Piece.height_lt {p q : Piece} (hq : q ∈ p.parts) : q.height < p.height := by
  have hle : q.height ≤ 2 * q.nodes.length + 1 := by
    cases q <;> simp [Piece.height, Piece.nodes]
  have hparts : q.nodes.length ≤ (p.parts.flatMap Piece.nodes).length :=
    (Piece.infix_nodes_parts hq).length_le
  cases p with
  | node n =>
    rw [Piece.height, Node.nodes_eq, List.length_cons]
    have hnode : q.nodes.length ≤ (n.parts.flatMap Piece.nodes).length := hparts
    omega
  | pair p =>
    obtain rfl := List.mem_singleton.1 hq
    rw [← Piece.nodes_eq (by simp)] at hparts
    simp only [Piece.height, Piece.nodes] at *
    omega
  | concat parts span =>
    obtain ⟨part, -, rfl⟩ := List.mem_map.1 hq
    rw [← Piece.nodes_eq (by simp)] at hparts
    simp only [Piece.height, Piece.nodes] at *
    omega

/-- What holds of a piece when it holds of its parts holds of every piece. -/
theorem Piece.induction {P : Piece → Prop} (step : ∀ p : Piece, (∀ q ∈ p.parts, P q) → P p)
    (p : Piece) : P p := by
  induction hh : p.height using Nat.strongRecOn generalizing p with
  | _ h ih =>
    subst hh
    exact step p fun q hq => ih q.height (Piece.height_lt hq) q rfl

/-- The nodes in a piece stand together among those in what holds it. -/
theorem Piece.Holds.infix_nodes {p q : Piece} (h : p.Holds q) : q.nodes <:+: p.nodes := by
  induction h with
  | refl p => exact List.infix_rfl
  | @part p q r hq _ ih =>
    refine ih.trans ((Piece.infix_nodes_parts hq).trans ?_)
    rcases p.nodes_cases with ⟨n, -, hnodes⟩ | hnodes
    · exact hnodes ▸ (List.suffix_cons _ _).isInfix
    · exact hnodes ▸ List.infix_rfl

theorem Piece.Holds.mem_nodes {p : Piece} {n : Node} (h : p.Holds (.node n)) : n ∈ p.nodes :=
  h.infix_nodes.subset (Piece.mem_nodes.2 (.inl rfl))

theorem Piece.holds_of_mem_nodes {p : Piece} {n : Node} (h : n ∈ p.nodes) :
    p.Holds (.node n) := by
  induction p using Piece.induction with
  | step p ih =>
    rcases Piece.mem_nodes.1 h with rfl | ⟨q, hq, hn⟩
    · exact .refl _
    · exact .part hq (ih q hq hn)

/-- Rules see the nodes among the pieces of a template. -/
theorem Template.mem_nodes_iff {t : Template} {n : Node} : n ∈ t.nodes ↔ t.Holds (.node n) :=
  ⟨Piece.holds_of_mem_nodes (p := .node (.template t)), Piece.Holds.mem_nodes⟩

/-- A piece that can be in a call. -/
def Piece.isArgument : Piece → Bool
  | .node (.path _) | .node (.literal _) | .node (.subExpression _) | .pair _ => true
  | _ => false

theorem Expr.isArgument_node (e : Expr) : (Piece.node e.node).isArgument = true := by
  cases e <;> rfl

theorem Call.isArgument_of_mem_parts {c : Call} {q : Piece} (hq : q ∈ c.parts) :
    q.isArgument = true := by
  rcases List.mem_cons.1 hq with rfl | hq
  · exact c.callee.isArgument_node
  · rcases List.mem_append.1 hq with hq | hq
    · obtain ⟨e, -, rfl⟩ := List.mem_map.1 hq
      exact e.isArgument_node
    · obtain ⟨p, -, rfl⟩ := List.mem_map.1 hq
      rfl

theorem Piece.Holds.isArgument {p q : Piece} (h : p.Holds q) (hp : p.isArgument = true) :
    q.isArgument = true := by
  induction h with
  | refl p => exact hp
  | @part p q r hq _ ih =>
    refine ih ?_
    cases p with
    | node n =>
      cases n with
      | subExpression e => exact Call.isArgument_of_mem_parts hq
      | path p => cases hq
      | literal l => cases hq
      | _ => cases hp
    | pair p =>
      obtain rfl := List.mem_singleton.1 hq
      exact p.value.isArgument_node
    | concat parts span => cases hp

theorem Call.isArgument_of_mem_nodes {c : Call} {n : Node} (hn : n ∈ c.nodes) :
    (Piece.node n).isArgument = true := by
  rw [Call.nodes_eq] at hn
  obtain ⟨q, hq, hn⟩ := List.mem_flatMap.1 hn
  exact (Piece.holds_of_mem_nodes hn).isArgument (Call.isArgument_of_mem_parts hq)

end TemplateLint.Tree
