import TemplateLint.Proofs.Fixing.Shape
import TemplateLint.Proofs.Reporting.Arguments

namespace TemplateLint

namespace Tree

/-- How an argument of an element is written instead. -/
inductive Rewrite where
  /-- Under another name, with the value that it has. -/
  | name (new : String)
  | modifier (m : ElementModifier)

def Rewrite.modifier? : Rewrite → Option ElementModifier
  | .name _ => none
  | .modifier m => some m

/-- The range that is written anew. -/
def Rewrite.range (a : Attribute) : Rewrite → Span
  | .name _ => a.nameSpan
  | .modifier _ => a.span

/-- What stays of an attribute among the attributes. -/
def Attribute.rewritten? (a : Attribute) : Option Rewrite → Option Attribute
  | none => some a
  | some (.name new) => some { a with name := new }
  | some (.modifier _) => none

def ElementModifier.startsFirst (m n : ElementModifier) : Bool := m.span.start ≤ n.span.start

/-- The modifiers that attributes become. -/
def newModifiers (r : Attribute → Option Rewrite) (attributes : List Attribute) :
    List ElementModifier :=
  attributes.filterMap fun a => (r a).bind Rewrite.modifier?

/-- The element with some attributes written in another way. New modifiers stand among the others in
the order of the source. -/
def Element.rewrite (r : Attribute → Option Rewrite) (e : Element) : Element :=
  { e with
    attributes := e.attributes.filterMap fun a => a.rewritten? (r a)
    modifiers := (newModifiers r e.attributes).merge e.modifiers ElementModifier.startsFirst }

theorem Element.rewrite_congr {r r' : Attribute → Option Rewrite} {e : Element}
    (h : ∀ a ∈ e.attributes, r a = r' a) : e.rewrite r = e.rewrite r' := by
  have hkept : (e.attributes.filterMap fun a => a.rewritten? (r a)) =
      e.attributes.filterMap fun a => a.rewritten? (r' a) :=
    List.filterMap_congr fun a ha => by rw [h a ha]
  have hnew : newModifiers r e.attributes = newModifiers r' e.attributes :=
    List.filterMap_congr fun a ha => by rw [h a ha]
  rw [Element.rewrite, Element.rewrite, hkept, hnew]

theorem Element.rewrite_none {r : Attribute → Option Rewrite} {e : Element}
    (h : ∀ a ∈ e.attributes, r a = none) : e.rewrite r = e := by
  rw [Element.rewrite_congr h]
  have hkept : (e.attributes.filterMap fun a => a.rewritten? none) = e.attributes :=
    List.filterMap_some
  have hnew : newModifiers (fun _ => none) e.attributes = [] :=
    List.filterMap_eq_nil_iff.2 fun _ _ => rfl
  rw [Element.rewrite, hkept, hnew, List.nil_merge]
  cases e
  rfl

mutual

/-- A statement where `h` says what becomes of every opening tag. The content of elements is treated
alike. -/
def Statement.mapElements (h : Element → Element) : Statement → Statement
  | .text t => .text t
  | .comment c => .comment c
  | .mustacheComment c => .mustacheComment c
  | .mustache m => .mustache m
  | .block b => .block (Block.mapElements h b)
  | .element e => .element (Element.mapElements h e)

def Block.mapElements (h : Element → Element) : Block → Block
  | ⟨call, blockParams, openSpan, program, inverse, close, span⟩ =>
    ⟨call, blockParams, openSpan, Body.mapElements h program, ElsePart.mapElements h inverse, close,
      span⟩

def Body.mapElements (h : Element → Element) : Body → Body
  | ⟨statements, span⟩ => ⟨Statement.mapElementsAll h statements, span⟩

def ElsePart.mapElements (h : Element → Element) : ElsePart → ElsePart
  | .absent => .absent
  | .final elseSpan body => .final elseSpan (Body.mapElements h body)
  | .chained segment => .chained (Block.mapElements h segment)

def Element.mapElements (h : Element → Element) : Element → Element
  | ⟨tag, tagSpan, attributes, modifiers, comments, blockParams, children, selfClosing, openSpan,
      closeSpan, span⟩ =>
    { h ⟨tag, tagSpan, attributes, modifiers, comments, blockParams, children, selfClosing, openSpan,
        closeSpan, span⟩ with children := Statement.mapElementsAll h children }

def Statement.mapElementsAll (h : Element → Element) : List Statement → List Statement
  | [] => []
  | s :: ss => Statement.mapElements h s :: Statement.mapElementsAll h ss

end

def Template.mapElements (h : Element → Element) (t : Template) : Template :=
  ⟨Statement.mapElementsAll h t.body, t.span⟩

section

variable {h h' : Element → Element}

mutual

theorem Statement.mapElements_congr : ∀ {s : Statement},
    (∀ e, Node.element e ∈ s.nodes → h e = h' e) → s.mapElements h = s.mapElements h'
  | .text _, _ | .comment _, _ | .mustacheComment _, _ | .mustache _, _ => rfl
  | .block b, hh => by
    rw [Statement.mapElements, Statement.mapElements, Block.mapElements_congr hh]
  | .element e, hh => by
    rw [Statement.mapElements, Statement.mapElements, Element.mapElements_congr hh]

theorem Block.mapElements_congr : ∀ {b : Block},
    (∀ e, Node.element e ∈ b.nodes → h e = h' e) → b.mapElements h = b.mapElements h'
  | ⟨call, blockParams, openSpan, program, inverse, close, span⟩, hh => by
    have hprogram := Body.mapElements_congr (b := program) fun e he =>
      hh e (List.mem_cons_of_mem _ (List.mem_append_left _ (List.mem_append_right _ he)))
    have hinverse := ElsePart.mapElements_congr (p := inverse) fun e he =>
      hh e (List.mem_cons_of_mem _ (List.mem_append_right _ he))
    rw [Block.mapElements, Block.mapElements, hprogram, hinverse]

theorem Body.mapElements_congr : ∀ {b : Body},
    (∀ e, Node.element e ∈ b.nodes → h e = h' e) → b.mapElements h = b.mapElements h'
  | ⟨statements, span⟩, hh => by
    rw [Body.mapElements, Body.mapElements, Statement.mapElementsAll_congr hh]

theorem ElsePart.mapElements_congr : ∀ {p : ElsePart},
    (∀ e, Node.element e ∈ p.nodes → h e = h' e) → p.mapElements h = p.mapElements h'
  | .absent, _ => rfl
  | .final elseSpan body, hh => by
    rw [ElsePart.mapElements, ElsePart.mapElements, Body.mapElements_congr hh]
  | .chained segment, hh => by
    rw [ElsePart.mapElements, ElsePart.mapElements, Block.mapElements_congr hh]

theorem Element.mapElements_congr : ∀ {e : Element},
    (∀ e', Node.element e' ∈ e.nodes → h e' = h' e') → e.mapElements h = e.mapElements h'
  | ⟨tag, tagSpan, attributes, modifiers, comments, blockParams, children, selfClosing, openSpan,
      closeSpan, span⟩, hh => by
    have hself := hh _ List.mem_cons_self
    have hchildren : Statement.mapElementsAll h children = Statement.mapElementsAll h' children :=
      Statement.mapElementsAll_congr fun e he =>
        hh e (List.mem_cons_of_mem _ (List.mem_append_right _ he))
    rw [Element.mapElements, Element.mapElements, hself, hchildren]

theorem Statement.mapElementsAll_congr : ∀ {ss : List Statement},
    (∀ e, Node.element e ∈ Statement.nodesAll ss → h e = h' e) →
      Statement.mapElementsAll h ss = Statement.mapElementsAll h' ss
  | [], _ => rfl
  | s :: ss, hh => by
    have hs := Statement.mapElements_congr (s := s) fun e he => hh e (List.mem_append_left _ he)
    have hss : Statement.mapElementsAll h ss = Statement.mapElementsAll h' ss :=
      Statement.mapElementsAll_congr fun e he => hh e (List.mem_append_right _ he)
    rw [Statement.mapElementsAll, Statement.mapElementsAll, hs, hss]

end

theorem Template.mem_elements {t : Template} {e : Element} :
    e ∈ t.elements ↔ Node.element e ∈ Statement.nodesAll t.body := by
  rw [Template.mem_elements_iff, ← Template.mem_nodes_iff, Template.nodes, List.mem_cons]
  simp

theorem Template.mapElements_congr {t : Template} (hh : ∀ e ∈ t.elements, h e = h' e) :
    t.mapElements h = t.mapElements h' := by
  rw [Template.mapElements, Template.mapElements,
    Statement.mapElementsAll_congr fun e he => hh e (Template.mem_elements.2 he)]

end

/-- What an attribute of the element becomes, by the schema of the component. -/
def Element.migration? (e : Element) (a : Attribute) : Option Migration := do
  let c ← Component.schema? e.tag
  let name ← a.argumentName?
  c.migration? name

/-- A call as the argument of a modifier: its callee where that is all of it. -/
def Call.asArgument (c : Call) : Expr :=
  if c.params.isEmpty && c.hash.isEmpty then c.callee
  else .subExpression ⟨c, ComponentArguments.callSpan c⟩

/-- `{{on "event" handler}}` -/
def onModifier (event : String) (handler : Expr) (span : Span) : ElementModifier :=
  ⟨⟨.path ⟨"on", default⟩, [.literal ⟨.string event, default⟩, handler], []⟩, span⟩

end Tree

/-- The expression that a text is, if it is one and nothing else. -/
def Concrete.Expr.ofText? (text : String) : Option Concrete.Expr :=
  match Concrete.Expr.read text.toList with
  | .ok (e, []) => some e
  | _ => none

namespace Tree

/-- The handler that the value of an event argument gives: the call of a mustache, or what any other
value is read as beside the event. -/
def AttrValue.handlerExpr? (source : String) : AttrValue → Option Expr
  | .mustache m => some m.call.asArgument
  | v => ((ComponentArguments.handler? source v).bind Concrete.Expr.ofText?).map (Concrete.Expr.at 0)

theorem AttrValue.exists_handler {source : String} {v : AttrValue} {expr : Expr}
    (h : v.handlerExpr? source = some expr) :
    ∃ handler, ComponentArguments.handler? source v = some handler := by
  unfold AttrValue.handlerExpr? at h
  split at h
  · next m =>
    rw [ComponentArguments.handler?]
    split
    · exact ⟨_, rfl⟩
    · exact ⟨_, rfl⟩
  · obtain ⟨x, hx, -⟩ := Option.map_eq_some_iff.1 h
    obtain ⟨handler, hh, -⟩ := Option.bind_eq_some_iff.1 hx
    exact ⟨handler, hh⟩

/-- How an attribute of the element is to be written instead. -/
def Element.rewrite? (source : String) (e : Element) (a : Attribute) : Option Rewrite :=
  (e.migration? a).bind fun
    | .attribute name => if e.hasAttribute name then none else some (.name name)
    | .event event =>
      (a.value.handlerExpr? source).map fun handler => .modifier (onModifier event handler a.span)

/-- How an attribute is to be written instead, if the range of that is selected. -/
def Element.selected? (source : String) (g : Span → Bool) (e : Element) (a : Attribute) :
    Option Rewrite :=
  (e.rewrite? source a).filter fun r => g (r.range a)

theorem attributeFix?_eq (source : String) (e : Element) (a : Attribute) :
    Concrete.attributeFix? source e a =
      (e.migration? a).bind (ComponentArguments.migrationFix? source e a) := by
  simp only [Concrete.attributeFix?, Element.migration?, ComponentSchema.migration?,
    ← ComponentSchema.deprecation?_eq, Option.bind_eq_bind, Option.bind_assoc]

/-- The fix of an attribute is of the range that is written anew. -/
theorem Element.range_of_attributeFix? {source : String} {e : Element} {a : Attribute} {fix : Fix}
    (hfix : Concrete.attributeFix? source e a = some fix) {r : Rewrite}
    (hr : e.rewrite? source a = some r) : fix.range = r.range a := by
  rw [attributeFix?_eq] at hfix
  obtain ⟨migration, hm, hfix⟩ := Option.bind_eq_some_iff.1 hfix
  rw [Element.rewrite?, hm, Option.bind_some] at hr
  cases migration with
  | «attribute» name =>
    rw [ComponentArguments.migrationFix?] at hfix
    dsimp only at hr
    split at hfix
    · cases hfix
    · next hno =>
      rw [if_neg hno] at hr
      cases hfix
      cases hr
      rfl
  | event event =>
    obtain ⟨handler, -, hfix⟩ := Option.bind_eq_some_iff.1 hfix
    obtain ⟨expr, -, rfl⟩ := Option.map_eq_some_iff.1 hr
    cases hfix
    rfl

/-- What is written anew has a fix. -/
theorem Element.isSome_attributeFix? {source : String} {e : Element} {a : Attribute} {r : Rewrite}
    (hr : e.rewrite? source a = some r) : (Concrete.attributeFix? source e a).isSome = true := by
  rw [attributeFix?_eq]
  obtain ⟨migration, hm, hr⟩ := Option.bind_eq_some_iff.1 hr
  rw [hm, Option.bind_some]
  cases migration with
  | «attribute» name =>
    dsimp only at hr
    split at hr
    · cases hr
    · next hno => rw [ComponentArguments.migrationFix?, if_neg hno]; rfl
  | event event =>
    obtain ⟨expr, hexpr, -⟩ := Option.map_eq_some_iff.1 hr
    obtain ⟨handler, hh⟩ := AttrValue.exists_handler hexpr
    rw [ComponentArguments.migrationFix?, hh]
    rfl

end Tree

end TemplateLint
