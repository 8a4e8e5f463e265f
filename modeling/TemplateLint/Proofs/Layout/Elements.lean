import TemplateLint.Proofs.Layout.Nodes
import TemplateLint.Proofs.Layout.Written

namespace TemplateLint

open Text (size)

/-- The ranges follow one another between `a` and `b`, with or without something between them. -/
def Span.Follow (a b : Nat) : List Span → Prop
  | [] => a ≤ b
  | s :: ss => a ≤ s.start ∧ s.start ≤ s.stop ∧ Span.Follow s.stop b ss

namespace Span.Follow

variable {a b c : Nat} {s : Span} {ss ts : List Span}

theorem le (h : Span.Follow a b ss) : a ≤ b := by
  induction ss generalizing a with
  | nil => exact h
  | cons s ss ih =>
    obtain ⟨hstart, hle, hss⟩ := h
    exact Nat.le_trans hstart (Nat.le_trans hle (ih hss))

theorem later (hac : a ≤ c) (h : Span.Follow c b ss) : Span.Follow a b ss := by
  cases ss with
  | nil => exact Nat.le_trans hac h
  | cons s ss => exact ⟨Nat.le_trans hac h.1, h.2⟩

theorem append (h : Span.Follow a b ss) (h' : Span.Follow b c ts) : Span.Follow a c (ss ++ ts) := by
  induction ss generalizing a with
  | nil => exact h'.later h
  | cons s ss ih =>
    obtain ⟨hstart, hle, hss⟩ := h
    exact ⟨hstart, hle, ih hss⟩

theorem earlier (h : Span.Follow a b ss) (hbc : b ≤ c) : Span.Follow a c ss := by
  have hnil : Span.Follow b c [] := hbc
  simpa using h.append hnil

theorem within (h : Span.Follow a b ss) (hs : s ∈ ss) :
    a ≤ s.start ∧ s.start ≤ s.stop ∧ s.stop ≤ b := by
  induction ss generalizing a with
  | nil => cases hs
  | cons t ss ih =>
    obtain ⟨hstart, hle, hss⟩ := h
    rcases List.mem_cons.1 hs with rfl | hs
    · exact ⟨hstart, hle, hss.le⟩
    · have hin := ih hss hs
      omega

theorem pairwise (h : Span.Follow a b ss) : ss.Pairwise fun s t => s.stop ≤ t.start := by
  induction ss generalizing a with
  | nil => exact .nil
  | cons s ss ih =>
    obtain ⟨-, -, hss⟩ := h
    exact List.pairwise_cons.2 ⟨fun t ht => (hss.within ht).1, ih hss⟩

end Span.Follow

namespace Tree

def Node.element? : Node → Option Element
  | .element e => some e
  | _ => none

/-- The elements among nodes, by their opening tags. -/
def openings (ns : List Node) : List Span := (ns.filterMap Node.element?).map Element.openSpan

@[simp] theorem openings_element (e : Element) (ns : List Node) :
    openings (.element e :: ns) = e.openSpan :: openings ns := rfl

@[simp] theorem openings_append (ns ms : List Node) :
    openings (ns ++ ms) = openings ns ++ openings ms := by
  simp [openings]

@[simp] theorem openings_flatMap {α : Type} (f : α → List Node) (xs : List α) :
    openings (xs.flatMap f) = xs.flatMap fun x => openings (f x) := by
  simp [openings, List.filterMap_flatMap, List.map_flatMap]

theorem openings_cons_of_none {n : Node} (h : n.element? = none) (ns : List Node) :
    openings (n :: ns) = openings ns := by
  simp [openings, h]

mutual

/-- There is no element in an expression. -/
theorem Expr.openings_nodes : ∀ e : Expr, openings e.nodes = []
  | .path _ => rfl
  | .literal _ => rfl
  | .subExpression e => by
    obtain ⟨call, span⟩ := e
    rw [Expr.nodes, openings_cons_of_none rfl, Call.openings_nodes call]

theorem Call.openings_nodes : ∀ c : Call, openings c.nodes = []
  | ⟨callee, params, hash⟩ => by
    rw [Call.nodes, openings_append, openings_append, Expr.openings_nodes callee,
      Expr.openings_nodesAll params, HashPair.openings_nodesAll hash]
    rfl

theorem Expr.openings_nodesAll : ∀ es, openings (Expr.nodesAll es) = []
  | [] => rfl
  | e :: es => by
    rw [Expr.nodesAll, openings_append, Expr.openings_nodes e, Expr.openings_nodesAll es]
    rfl

theorem HashPair.openings_nodesAll : ∀ ps, openings (HashPair.nodesAll ps) = []
  | [] => rfl
  | ⟨_, value, _⟩ :: ps => by
    rw [HashPair.nodesAll, openings_append, Expr.openings_nodes value,
      HashPair.openings_nodesAll ps]
    rfl

end

theorem Mustache.openings_nodes (m : Mustache) : openings m.nodes = [] := by
  rw [Mustache.nodes, openings_cons_of_none rfl, Call.openings_nodes]

theorem Attribute.openings_nodes (a : Attribute) : openings a.nodes = [] := by
  rw [Attribute.nodes, openings_cons_of_none rfl]
  cases a.value with
  | valueless => rfl
  | text t => rfl
  | mustache m => exact m.openings_nodes
  | concat parts span =>
    rw [AttrValue.nodes, openings_flatMap, List.flatMap_eq_nil_iff]
    rintro (t | m) -
    · rfl
    · exact m.openings_nodes

theorem ElementModifier.openings_nodes (m : ElementModifier) : openings m.nodes = [] := by
  rw [ElementModifier.nodes, openings_cons_of_none rfl, Call.openings_nodes]

theorem Element.openings_openingNodes (e : Element) : openings e.openingNodes = [] := by
  have hcomments : openings (e.comments.map .mustacheComment) = [] := by
    simp [openings, List.filterMap_map, Function.comp_def, Node.element?]
  rw [Element.openingNodes, openings_append, openings_append, hcomments, openings_flatMap,
    openings_flatMap]
  simp [Attribute.openings_nodes, ElementModifier.openings_nodes]

theorem Element.openings_nodes (e : Element) :
    openings e.nodes = e.openSpan :: openings (Statement.nodesAll e.children) := by
  obtain ⟨tag, tagSpan, attributes, modifiers, comments, params, children, single, opening, closing,
    span⟩ := e
  rw [Element.nodes, openings_element, openings_append, Element.openings_openingNodes,
    List.nil_append]

end Tree

namespace Concrete

open TemplateLint.Tree (openings openings_append openings_cons_of_none)

mutual

/-- The opening tags in a statement follow one another in its range. -/
theorem Statement.openings_at : ∀ (s : Statement) (k : Nat),
    Span.Follow k (k + s.width) (openings (s.at k).nodes)
  | .text _, k | .comment _, k | .note _, k => Nat.le_add_right _ _
  | .mustache m, k => by
    rw [Statement.at, Tree.Statement.nodes, Tree.Mustache.openings_nodes]
    exact Nat.le_add_right _ _
  | .block opening program sections closing, k => by
    have hprogram := Statement.openings_atAll program (k + size opening.chars)
    have hsections := Section.openings_atAll sections
      (k + size opening.chars + Statement.widthAll program)
    rw [Statement.at, Tree.Statement.nodes, Tree.Block.nodes, openings_cons_of_none rfl,
      openings_append, openings_append, Tree.Call.openings_nodes, List.nil_append, Tree.Body.nodes]
    refine ((hprogram.append hsections).later (Nat.le_add_right _ _)).earlier ?_
    simp only [Statement.width]
    omega
  | .whole opening, k => by
    rw [Statement.at, Tree.Statement.nodes, Tree.Element.openings_nodes]
    exact ⟨Nat.le_refl _, Nat.le_add_right _ _, Nat.le_refl _⟩
  | .element opening children closing, k => by
    have hchildren := Statement.openings_atAll children (k + size opening.chars)
    rw [Statement.at, Tree.Statement.nodes, Tree.Element.openings_nodes]
    refine ⟨Nat.le_refl _, Nat.le_add_right _ _, hchildren.earlier ?_⟩
    simp only [Statement.width]
    omega

theorem Statement.openings_atAll : ∀ (ss : List Statement) (k : Nat),
    Span.Follow k (k + Statement.widthAll ss)
      (openings (Tree.Statement.nodesAll (Statement.atAll k ss)))
  | [], k => Nat.le_refl _
  | s :: ss, k => by
    have hs := Statement.openings_at s k
    have hss := Statement.openings_atAll ss (k + s.width)
    rw [Statement.atAll, Tree.Statement.nodesAll, openings_append, Statement.widthAll,
      ← Nat.add_assoc]
    exact hs.append hss

theorem Section.openings_atAll : ∀ (sections : List Section) (k : Nat),
    Span.Follow k (k + Section.widthAll sections) (openings (Section.atAll k sections).nodes)
  | [], k => Nat.le_refl _
  | ⟨⟨tilde, lead, .plain trail after⟩, body⟩ :: more, k => by
    have hbody := Statement.openings_atAll body
      (k + size (ElseTag.mk tilde lead (.plain trail after)).chars)
    rw [Section.atAll, Tree.ElsePart.nodes, Tree.Body.nodes]
    refine (hbody.later (Nat.le_add_right _ _)).earlier ?_
    simp only [Section.widthAll, Section.width]
    omega
  | ⟨⟨tilde, lead, .chained call ending⟩, body⟩ :: more, k => by
    have hbody := Statement.openings_atAll body
      (k + size (ElseTag.mk tilde lead (.chained call ending)).chars)
    have hmore := Section.openings_atAll more
      (k + size (ElseTag.mk tilde lead (.chained call ending)).chars + Statement.widthAll body)
    rw [Section.atAll, Tree.ElsePart.nodes, Tree.Block.nodes, openings_cons_of_none rfl,
      openings_append, openings_append, Tree.Call.openings_nodes, List.nil_append, Tree.Body.nodes]
    refine ((hbody.append hmore).later (Nat.le_add_right _ _)).earlier ?_
    simp only [Section.widthAll, Section.width]
    omega

end

theorem attributesAt_follow (k : Nat) (items : List Spaced) :
    Span.Follow k (k + size (items.flatMap Spaced.chars))
      ((attributesAt k items).map Tree.Attribute.nameSpan) := by
  induction items generalizing k with
  | nil => exact Nat.le_refl _
  | cons s items ih =>
    have hitems := ih (k + size s.chars)
    rw [attributesAt_cons, List.map_append, List.flatMap_cons, Text.size_append, ← Nat.add_assoc]
    refine Span.Follow.append ?_ hitems
    obtain ⟨lead, item⟩ := s
    cases item with
    | «attribute» a =>
      refine ⟨Nat.le_add_right _ _, Nat.le_add_right _ _, ?_⟩
      change k + size lead + size a.name ≤ k + size (lead ++ a.chars)
      simp only [Attribute.chars, Text.size_append]
      omega
    | _ => exact Nat.le_add_right _ _

theorem OpeningTag.names_follow (t : OpeningTag) (k : Nat) :
    Span.Follow (k + 1) (k + size t.chars)
      ((t.at k).tagSpan :: (t.at k).attributes.map Tree.Attribute.nameSpan) := by
  have hattributes := attributesAt_follow (k + 1 + size t.name) t.items
  refine ⟨Nat.le_refl _, Nat.le_add_right _ _, hattributes.earlier ?_⟩
  have htag : size Token.tagOpen.chars = 1 := rfl
  simp only [OpeningTag.chars, Text.size_append, htag]
  omega

end Concrete

namespace Tree

/-- An element starts with its opening tag, in which its name comes first and then the names of its
attributes. -/
structure Element.Opens (e : Element) : Prop where
  start : e.openSpan.start = e.span.start
  names : Span.Follow (e.span.start + 1) e.openSpan.stop
    (e.tagSpan :: e.attributes.map Attribute.nameSpan)

theorem Piece.WrittenAt.opens {k : Nat} {cs : List Char} {e : Element}
    (h : (Piece.node (.element e)).WrittenAt k cs) : e.Opens := by
  have hspan : e.span = .over k cs := h.span_eq
  obtain ⟨opening, ss, rest, y, -, -, rfl, he⟩ := h.element_eq
  rw [he, hspan]
  exact ⟨rfl, opening.names_follow k⟩

/-- The elements of a template as rules see them. -/
def Template.elements (t : Template) : List Element := t.nodes.filterMap Node.element?

theorem Template.mem_elements_iff {t : Template} {e : Element} :
    e ∈ t.elements ↔ t.Holds (.node (.element e)) := by
  rw [← Template.mem_nodes_iff, Template.elements, List.mem_filterMap]
  constructor
  · rintro ⟨n, hn, he⟩
    cases n with
    | element e' =>
      obtain rfl := Option.some.inj he
      exact hn
    | _ => cases he
  · intro h
    exact ⟨_, h, rfl⟩

/-- An element is seen after those whose opening tags are before its own. -/
theorem Template.elements_pairwise {source : String} {t : Template}
    (ht : Template.parse source = .ok t) :
    t.elements.Pairwise fun e e' => e.openSpan.stop ≤ e'.openSpan.start := by
  obtain ⟨ss, -, -, rfl⟩ := Template.parse_eq_ok.1 ht
  have hfollow := Concrete.Statement.openings_atAll ss 0
  rw [← List.pairwise_map (f := Element.openSpan) (R := fun s t => s.stop ≤ t.start)]
  exact hfollow.pairwise

theorem Template.opens_of_mem_elements {source : String} {t : Template}
    (ht : Template.parse source = .ok t) {e : Element} (he : e ∈ t.elements) : e.Opens := by
  obtain ⟨u, x, v, -, hx⟩ := Template.written ht (Template.mem_elements_iff.1 he)
  exact hx.opens

end Tree

end TemplateLint
