import TemplateLint.Proofs.Migration.Rewrite

namespace TemplateLint.Tree

/-- The elements among nodes. -/
def elementsIn (ns : List Node) : List Element := ns.filterMap Node.element?

@[simp] theorem elementsIn_append (ns ms : List Node) :
    elementsIn (ns ++ ms) = elementsIn ns ++ elementsIn ms := List.filterMap_append

@[simp] theorem elementsIn_element (e : Element) (ns : List Node) :
    elementsIn (.element e :: ns) = e :: elementsIn ns := rfl

theorem elementsIn_cons_of_none {n : Node} (h : n.element? = none) (ns : List Node) :
    elementsIn (n :: ns) = elementsIn ns := List.filterMap_cons_none h

theorem elementsIn_of_openings {ns : List Node} (h : openings ns = []) : elementsIn ns = [] :=
  List.map_eq_nil_iff.1 h

theorem Element.elements_nodes (e : Element) :
    elementsIn e.nodes = e :: elementsIn (Statement.nodesAll e.children) := by
  have hopening : elementsIn e.openingNodes = [] := elementsIn_of_openings e.openings_openingNodes
  obtain ⟨tag, tagSpan, attributes, modifiers, comments, params, children, single, opening, closing,
    span⟩ := e
  rw [Element.nodes, elementsIn_element, elementsIn_append, hopening, List.nil_append]

theorem Block.elements_nodes (b : Block) :
    elementsIn b.nodes = elementsIn b.program.nodes ++ elementsIn b.inverse.nodes := by
  obtain ⟨call, params, opening, program, inverse, close, span⟩ := b
  rw [Block.nodes, elementsIn_cons_of_none rfl, elementsIn_append, elementsIn_append,
    elementsIn_of_openings call.openings_nodes, List.nil_append]

theorem Mustache.elements_nodes (m : Mustache) : elementsIn m.nodes = [] :=
  elementsIn_of_openings m.openings_nodes

theorem Template.elements_eq (t : Template) :
    t.elements = elementsIn (Statement.nodesAll t.body) := by
  rw [Template.elements, Template.nodes, List.filterMap_cons_none rfl, elementsIn]

variable (h : Element → Element)

theorem Element.mapElements_eq (e : Element) :
    e.mapElements h = { h e with children := Statement.mapElementsAll h e.children } := by
  cases e
  rw [Element.mapElements]

mutual

theorem Statement.elements_mapElements : ∀ s : Statement,
    elementsIn (s.mapElements h).nodes = (elementsIn s.nodes).map (Element.mapElements h)
  | .text _ | .comment _ | .mustacheComment _ => rfl
  | .mustache m => by
    rw [Statement.mapElements, Statement.nodes, m.elements_nodes]
    rfl
  | .block b => Block.elements_mapElements b
  | .element e => Element.elements_mapElements e

theorem Block.elements_mapElements : ∀ b : Block,
    elementsIn (b.mapElements h).nodes = (elementsIn b.nodes).map (Element.mapElements h)
  | ⟨call, params, opening, program, inverse, close, span⟩ => by
    rw [Block.mapElements, Block.elements_nodes, Block.elements_nodes, List.map_append,
      Body.elements_mapElements program, ElsePart.elements_mapElements inverse]

theorem Body.elements_mapElements : ∀ b : Body,
    elementsIn (b.mapElements h).nodes = (elementsIn b.nodes).map (Element.mapElements h)
  | ⟨statements, _⟩ => Statement.elements_mapElementsAll statements

theorem ElsePart.elements_mapElements : ∀ p : ElsePart,
    elementsIn (p.mapElements h).nodes = (elementsIn p.nodes).map (Element.mapElements h)
  | .absent => rfl
  | .final _ body => Body.elements_mapElements body
  | .chained segment => Block.elements_mapElements segment

theorem Element.elements_mapElements : ∀ e : Element,
    elementsIn (e.mapElements h).nodes = (elementsIn e.nodes).map (Element.mapElements h)
  | ⟨tag, tagSpan, attributes, modifiers, comments, params, children, single, opening, closing,
      span⟩ => by
    rw [Element.elements_nodes, Element.elements_nodes, List.map_cons,
      ← Statement.elements_mapElementsAll children, Element.mapElements_eq]

theorem Statement.elements_mapElementsAll : ∀ ss : List Statement,
    elementsIn (Statement.nodesAll (Statement.mapElementsAll h ss)) =
      (elementsIn (Statement.nodesAll ss)).map (Element.mapElements h)
  | [] => rfl
  | s :: ss => by
    rw [Statement.mapElementsAll, Statement.nodesAll, Statement.nodesAll, elementsIn_append,
      elementsIn_append, List.map_append, Statement.elements_mapElements s,
      Statement.elements_mapElementsAll ss]

end

/-- The elements of the template with its elements written anew are these elements. -/
theorem Template.elements_mapElements (t : Template) :
    (t.mapElements h).elements = t.elements.map (Element.mapElements h) := by
  rw [Template.elements_eq, Template.elements_eq, Template.mapElements,
    Statement.elements_mapElementsAll]

theorem Element.children_shape (e : Element) :
    (e.shape nowhere).children = Statement.shapeAll nowhere e.children := by
  cases e
  rw [Element.shape]

mutual

theorem Statement.elements_shape : ∀ s : Statement,
    elementsIn (s.shape nowhere).nodes = (elementsIn s.nodes).map (Element.shape nowhere)
  | .text _ | .comment _ | .mustacheComment _ => rfl
  | .mustache m => by
    rw [Statement.shape, Statement.nodes, Statement.nodes, m.elements_nodes,
      Mustache.elements_nodes]
    rfl
  | .block b => Block.elements_shape b
  | .element e => Element.elements_shape e

theorem Block.elements_shape : ∀ b : Block,
    elementsIn (b.shape nowhere).nodes = (elementsIn b.nodes).map (Element.shape nowhere)
  | ⟨call, params, opening, program, inverse, close, span⟩ => by
    rw [Block.shape, Concrete.pick_nowhere, Block.elements_nodes, Block.elements_nodes,
      List.map_append, Body.elements_shape program, ElsePart.elements_shape inverse]

theorem Body.elements_shape : ∀ b : Body,
    elementsIn (b.shape nowhere).nodes = (elementsIn b.nodes).map (Element.shape nowhere)
  | ⟨statements, _⟩ => Statement.elements_shapeAll statements

theorem ElsePart.elements_shape : ∀ p : ElsePart,
    elementsIn (p.shape nowhere).nodes = (elementsIn p.nodes).map (Element.shape nowhere)
  | .absent => rfl
  | .final _ body => Body.elements_shape body
  | .chained segment => Block.elements_shape segment

theorem Element.elements_shape : ∀ e : Element,
    elementsIn (e.shape nowhere).nodes = (elementsIn e.nodes).map (Element.shape nowhere)
  | ⟨tag, tagSpan, attributes, modifiers, comments, params, children, single, opening, closing,
      span⟩ => by
    rw [Element.elements_nodes, Element.elements_nodes, List.map_cons,
      ← Statement.elements_shapeAll children, Element.children_shape]

theorem Statement.elements_shapeAll : ∀ ss : List Statement,
    elementsIn (Statement.nodesAll (Statement.shapeAll nowhere ss)) =
      (elementsIn (Statement.nodesAll ss)).map (Element.shape nowhere)
  | [] => rfl
  | s :: ss => by
    rw [Statement.shapeAll, Statement.nodesAll, Statement.nodesAll, elementsIn_append,
      elementsIn_append, List.map_append, Statement.elements_shape s,
      Statement.elements_shapeAll ss]

end

theorem Template.elements_shape (t : Template) :
    (t.shape nowhere).elements = t.elements.map (Element.shape nowhere) := by
  rw [Template.elements_eq, Template.elements_eq, Template.shape, Statement.elements_shapeAll]

end TemplateLint.Tree
